import HostBridge.Problem.Site
import HostBridge.Report.Reporter

/-!
# Recording problems

The messages of a module are turned into diagnostics and handed to the reporter in order. A message
whose diagnostic the reporter has accepted is removed; one that has no diagnostic stays, and so do
the refused one and all after it.
-/

namespace HostBridge

/-- What is left after recording messages. -/
structure Recorded where
  /-- The messages that have not been handed over. -/
  remaining : List Source.Message
  reporter : Reporter
  /-- The diagnostics that were accepted, or nothing if the reporter refused one. -/
  diagnostics : Option (List Diagnostic)

namespace Site

/-- Hands over the diagnostics of some messages until one is refused. -/
def record (s : Site) : List Source.Message → Reporter → Recorded
  | [], r => ⟨[], r, some []⟩
  | m :: ms, r =>
    match s.diagnostic? m with
    | none =>
      let rest := s.record ms r
      { rest with remaining := m :: rest.remaining }
    | some d =>
      let (r, accepted) := r.submit (.diagnostic d)
      if accepted then
        let rest := s.record ms r
        { rest with diagnostics := rest.diagnostics.map (d :: ·) }
      else ⟨m :: ms, r, none⟩

end Site

end HostBridge
