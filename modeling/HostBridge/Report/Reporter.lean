import HostBridge.Diagnostic
import HostBridge.Report.ClassFile
import HostBridge.Report.Task

/-!
# Reporters

Diagnostics and task markers go to a reporter, one call for each. The host may refuse a call, which
asks the build to stop; whether it accepts the call of a given number is up to the host, so it is a
parameter of the reporter, `Reporter.accepts`. A reporter that has been cancelled refuses every
call.

The reporter keeps a transcript of all calls with their answers. What the host has been told is a
view of the transcript: `Reporter.diagnostics`, `Reporter.tasks`.

* `diagnostics_submit`, `tasks_submit` — what one call adds to the views.
-/

namespace HostBridge

/-- What a call hands over. -/
inductive Report where
  | diagnostic (d : Diagnostic)
  | task (t : TaskMarker)
deriving DecidableEq, Repr, Inhabited

namespace Report

/-- The diagnostic that is handed over, if it is one. -/
def diagnostic? : Report → Option Diagnostic
  | diagnostic d => some d
  | task _ => none

/-- The task marker that is handed over, if it is one. -/
def task? : Report → Option TaskMarker
  | diagnostic _ => none
  | task t => some t

end Report

/-- A reporter with what it has been told. -/
structure Reporter where
  /-- Whether the host accepts the call of this number, counted from zero. -/
  accepts : Nat → Bool
  cancelled : Bool := false
  /-- The calls so far, each with its answer. -/
  transcript : List (Report × Bool) := []
  /-- The class files so far, which are never refused. -/
  classFiles : List ClassFile := []

namespace Reporter

/-- A reporter that accepts every call until it is cancelled. -/
def accepting : Reporter := { accepts := fun _ => true }

def acceptingFirst (n : Nat) : Reporter := { accepts := fun call => call < n }

instance : Inhabited Reporter := ⟨accepting⟩

def cancel (r : Reporter) : Reporter := { r with cancelled := true }

/-- Whether the reporter accepts the next call. -/
def acceptsNext (r : Reporter) : Bool := !r.cancelled && r.accepts r.transcript.length

/-- Hands over a report. The answer tells whether it was accepted. -/
def submit (r : Reporter) (report : Report) : Reporter × Bool :=
  ({ r with transcript := r.transcript ++ [(report, r.acceptsNext)] }, r.acceptsNext)

def recordClassFile (r : Reporter) (f : ClassFile) : Reporter :=
  { r with classFiles := r.classFiles ++ [f] }

/-! ### What the host has been told -/

def accepted (r : Reporter) : List Report :=
  (r.transcript.filter (·.2)).map (·.1)

def diagnostics (r : Reporter) : List Diagnostic := r.accepted.filterMap Report.diagnostic?

def tasks (r : Reporter) : List TaskMarker := r.accepted.filterMap Report.task?

def hasProblems (r : Reporter) : Bool := !r.diagnostics.isEmpty

/-- Whether the host has asked to stop: the reporter was cancelled, or it refused a call. -/
def isStopped (r : Reporter) : Bool := r.cancelled || r.transcript.any fun call => !call.2

@[simp] theorem accepted_submit (r : Reporter) (report : Report) :
    (r.submit report).1.accepted = r.accepted ++ if r.acceptsNext then [report] else [] := by
  cases h : r.acceptsNext <;> simp [accepted, submit, h]

theorem diagnostics_submit (r : Reporter) (d : Diagnostic) :
    (r.submit (.diagnostic d)).1.diagnostics =
      r.diagnostics ++ if r.acceptsNext then [d] else [] := by
  cases h : r.acceptsNext <;> simp [diagnostics, h, Report.diagnostic?]

theorem tasks_submit (r : Reporter) (t : TaskMarker) :
    (r.submit (.task t)).1.tasks = r.tasks ++ if r.acceptsNext then [t] else [] := by
  cases h : r.acceptsNext <;> simp [tasks, h, Report.task?]

end Reporter

end HostBridge
