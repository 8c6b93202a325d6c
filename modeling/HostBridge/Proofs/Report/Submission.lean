import HostBridge.Proofs.Problem.Conservation
import HostBridge.Session.Callback

/-!
# Handing over reports

Diagnostics and task markers are handed over in the same way: one call after the other, until the
host refuses one or there are no more. This file takes that loop on its own, `Reporter.submitAll`.
There are two ways in which it can end, `Reporter.Submitted`; either way all calls but the last one
were accepted, and nothing is handed over after a refusal.

Recording messages and reporting tasks are this loop, `Site.record_eq` and
`SourceUnit.reportTasks_eq`, so whatever holds of it holds of both.

To compare what the host is told with what it might have been told, `Reporter.obliging` is the same
reporter with a host that accepts every call from now on.
-/

namespace HostBridge

namespace Reporter

variable {r : Reporter} {reports : List Report} {calls : List (Report × Bool)} {accepted : Bool}

/-- The reporter after some more calls. -/
def heard (r : Reporter) (calls : List (Report × Bool)) : Reporter :=
  { r with transcript := r.transcript ++ calls }

@[simp] theorem heard_nil (r : Reporter) : r.heard [] = r := by
  rw [heard, List.append_nil]

theorem heard_heard (r : Reporter) (calls calls' : List (Report × Bool)) :
    (r.heard calls).heard calls' = r.heard (calls ++ calls') := by
  rw [heard, heard, heard, List.append_assoc]

/-! ### The loop -/

/-- Hands over reports until one is refused. The answer tells whether all were accepted. -/
def submitAll : List Report → Reporter → Reporter × Bool
  | [], r => (r, true)
  | report :: reports, r =>
    let (r, accepted) := r.submit report
    if accepted then submitAll reports r else (r, false)

theorem submitAll_cons_of_accepted (h : r.acceptsNext = true) (report : Report)
    (reports : List Report) :
    submitAll (report :: reports) r = submitAll reports (r.heard [(report, true)]) := by
  rw [submitAll, submit, h]
  rfl

theorem submitAll_cons_of_refused (h : r.acceptsNext = false) (report : Report)
    (reports : List Report) :
    submitAll (report :: reports) r = (r.heard [(report, false)], false) := by
  rw [submitAll, submit, h]
  rfl

/-- **What handing over reports comes to**: the calls that are made, and whether all of them were
accepted. -/
inductive Submitted : List Report → List (Report × Bool) → Bool → Prop
  | all (reports : List Report) : Submitted reports (reports.map fun report => (report, true)) true
  | refused (before : List Report) (report : Report) (after : List Report) :
      Submitted (before ++ report :: after)
        (before.map (fun report => (report, true)) ++ [(report, false)]) false

theorem submitAll_cases (reports : List Report) (r : Reporter) :
    ∃ calls accepted, Submitted reports calls accepted ∧
      submitAll reports r = (r.heard calls, accepted) := by
  -- by induction on the reports; the reporter changes on the way, so it is not fixed
  induction reports generalizing r with
  | nil => exact ⟨[], true, .all [], by rw [submitAll, heard_nil]⟩
  | cons report reports ih =>
    cases hnext : r.acceptsNext with
    | false =>
      exact ⟨_, _, .refused [] report reports, submitAll_cons_of_refused hnext report reports⟩
    | true =>
      obtain ⟨calls, accepted, hcalls, heq⟩ := ih (r.heard [(report, true)])
      rw [submitAll_cons_of_accepted hnext, heq, heard_heard]
      -- the calls for the others follow the accepted one
      refine ⟨_, _, ?_, rfl⟩
      cases hcalls with
      | all => exact .all (report :: reports)
      | refused before refused after => exact .refused (report :: before) refused after

namespace Submitted

/-- A call is refused exactly if not all are accepted. -/
theorem refused_iff (h : Submitted reports calls accepted) :
    (∃ call ∈ calls, call.2 = false) ↔ accepted = false := by
  cases h <;> simp

/-- Only the last call can have been refused. -/
theorem accepted_of_mem_dropLast (h : Submitted reports calls accepted) :
    ∀ call ∈ calls.dropLast, call.2 = true := by
  cases h with
  | all reports =>
    intro call hcall
    obtain ⟨report, -, rfl⟩ := List.mem_map.1 ((List.dropLast_sublist _).subset hcall)
    rfl
  | refused before report after =>
    intro call hcall
    rw [List.dropLast_concat] at hcall
    obtain ⟨report, -, rfl⟩ := List.mem_map.1 hcall
    rfl

/-- If all calls are accepted, then all reports are handed over. -/
theorem calls_eq (h : Submitted reports calls true) :
    calls = reports.map fun report => (report, true) := by
  cases h
  rfl

end Submitted

/-! ### A host that never refuses -/

/-- The same reporter, whose host accepts every call from now on. -/
def obliging (r : Reporter) : Reporter := { r with accepts := fun _ => true, cancelled := false }

theorem submitAll_obliging (reports : List Report) (r : Reporter) :
    submitAll reports r.obliging =
      ((r.heard (reports.map fun report => (report, true))).obliging, true) := by
  induction reports generalizing r with
  | nil =>
    rw [List.map_nil, heard_nil]
    rfl
  | cons report reports ih =>
    have hheard : r.obliging.heard [(report, true)] = (r.heard [(report, true)]).obliging := rfl
    rw [submitAll_cons_of_accepted rfl, hheard, ih, heard_heard]
    rfl

end Reporter

/-! ### Messages and tasks -/

namespace Site

/-- The diagnostics of messages as reports. -/
def reports (s : Site) (ms : List Source.Message) : List Report :=
  (ms.filterMap s.diagnostic?).map .diagnostic

section Record

variable {s : Site} {m : Source.Message} {d : Diagnostic} {r : Reporter}

theorem record_cons_of_none (hm : s.diagnostic? m = none) (ms : List Source.Message)
    (r : Reporter) :
    s.record (m :: ms) r = { s.record ms r with remaining := m :: (s.record ms r).remaining } := by
  rw [record, hm]

theorem record_cons_of_accepted (hm : s.diagnostic? m = some d) (h : r.acceptsNext = true)
    (ms : List Source.Message) :
    s.record (m :: ms) r =
      { s.record ms (r.heard [(.diagnostic d, true)]) with
        diagnostics :=
          (s.record ms (r.heard [(.diagnostic d, true)])).diagnostics.map (d :: ·) } := by
  simp only [record, hm, Reporter.submit, Reporter.heard, h]
  rfl

theorem record_cons_of_refused (hm : s.diagnostic? m = some d) (h : r.acceptsNext = false)
    (ms : List Source.Message) :
    s.record (m :: ms) r = ⟨m :: ms, r.heard [(.diagnostic d, false)], none⟩ := by
  simp only [record, hm, Reporter.submit, Reporter.heard, h]
  rfl

end Record

/-- **Recording messages** hands over their diagnostics. If all of them are accepted, none of the
messages that have one is left. -/
theorem record_eq (s : Site) (ms : List Source.Message) (r : Reporter) :
    (s.record ms r).reporter = (r.submitAll (s.reports ms)).1 ∧
      (s.record ms r).diagnostics =
        (if (r.submitAll (s.reports ms)).2 then some (ms.filterMap s.diagnostic?) else none) ∧
      ((r.submitAll (s.reports ms)).2 = true →
        (s.record ms r).remaining = s.untranslatable ms) := by
  induction ms generalizing r with
  | nil => exact ⟨rfl, rfl, fun _ => rfl⟩
  | cons m ms ih =>
    rw [reports, untranslatable]
    cases hm : s.diagnostic? m with
    | none =>
      -- the message stays and nothing is handed over
      obtain ⟨hreporter, hdiagnostics, hremaining⟩ := ih r
      rw [record_cons_of_none hm, List.filterMap_cons_none hm,
        List.filter_cons_of_pos (by simp [hm])]
      exact ⟨hreporter, hdiagnostics, fun haccepted => congrArg _ (hremaining haccepted)⟩
    | some d =>
      rw [List.filterMap_cons_some hm, List.map_cons, List.filter_cons_of_neg (by simp [hm])]
      cases hnext : r.acceptsNext with
      | false =>
        rw [record_cons_of_refused hm hnext, Reporter.submitAll_cons_of_refused hnext]
        exact ⟨rfl, rfl, fun h => absurd h Bool.false_ne_true⟩
      | true =>
        obtain ⟨hreporter, hdiagnostics, hremaining⟩ := ih (r.heard [(.diagnostic d, true)])
        rw [record_cons_of_accepted hm hnext, Reporter.submitAll_cons_of_accepted hnext]
        refine ⟨hreporter, ?_, hremaining⟩
        dsimp only
        rw [hdiagnostics, reports]
        split <;> rfl

/-- **What recording messages comes to.** -/
theorem record_cases (s : Site) (ms : List Source.Message) (r : Reporter) :
    ∃ calls accepted, Reporter.Submitted (s.reports ms) calls accepted ∧
      (s.record ms r).reporter = r.heard calls ∧
      (s.record ms r).diagnostics = (if accepted then some (ms.filterMap s.diagnostic?) else none) ∧
      (accepted = true → (s.record ms r).remaining = s.untranslatable ms) := by
  obtain ⟨calls, accepted, hcalls, heq⟩ := Reporter.submitAll_cases (s.reports ms) r
  have hrecord := s.record_eq ms r
  rw [heq] at hrecord
  exact ⟨calls, accepted, hcalls, hrecord⟩

/-- A host that never refuses is told all diagnostics. -/
theorem record_obliging (s : Site) (ms : List Source.Message) (r : Reporter) :
    s.record ms r.obliging =
      ⟨s.untranslatable ms,
        (r.heard ((s.reports ms).map fun report => (report, true))).obliging,
        some (ms.filterMap s.diagnostic?)⟩ := by
  obtain ⟨hreporter, hdiagnostics, hremaining⟩ := s.record_eq ms r.obliging
  rw [Reporter.submitAll_obliging] at hreporter hdiagnostics hremaining
  have hremaining := hremaining rfl
  rw [if_pos rfl] at hdiagnostics
  cases hrecorded : s.record ms r.obliging
  rw [hrecorded] at hreporter hdiagnostics hremaining
  exact Recorded.mk.injEq .. ▸ ⟨hremaining, hreporter, hdiagnostics⟩

/-- An obliging host is told the diagnostics of all messages. -/
theorem diagnostics_record_obliging (s : Site) (ms : List Source.Message) (r : Reporter) :
    (s.record ms r.obliging).reporter.diagnostics =
      r.diagnostics ++ ms.filterMap s.diagnostic? := by
  have hconserved := s.diagnostics_record ms r.obliging
  -- none of the messages that remain has a diagnostic
  have hrest : (s.untranslatable ms).filterMap s.diagnostic? = [] := by
    refine List.filterMap_eq_nil_iff.2 fun m hm => ?_
    simpa using (List.mem_filter.1 hm).2
  rw [record_obliging] at hconserved ⊢
  rwa [hrest, List.append_nil] at hconserved

end Site

/-- **Reporting tasks** hands over their markers. -/
theorem SourceUnit.reportTasks_eq (tasks : List TaskMarker) (r : Reporter) :
    reportTasks tasks r = r.submitAll (tasks.map .task) := by
  induction tasks generalizing r with
  | nil => rfl
  | cons t ts ih =>
    unfold reportTasks
    rw [List.map_cons, Reporter.submitAll]
    dsimp only
    rw [ih]

end HostBridge
