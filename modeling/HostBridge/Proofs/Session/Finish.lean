import HostBridge.Proofs.Report.Submission
import HostBridge.Proofs.Session.Stage

/-!
# What a stage does after driving

A stage drives the front end and then does its own part, `Step.finish`: `SourceUnit.perform_eq`.
After driving without success there is nothing to do but to report tasks, and after driving was told
to stop there is nothing to do at all.
-/

namespace HostBridge

namespace Step

/-- What a stage does after driving. -/
def finish (id : Source.ModuleId) (step : Step Outcome) : Stage → Step Outcome
  | .populate =>
    if step.result.isSuccess then
      match step.session.frontEnd.module? id with
      | none => { step with result := .fatal (.unknownModule id) }
      | some m =>
        match DeclarationTree.build step.session.options m with
        | .ok tree => { step with unit := { step.unit with tree } }
        | .error fault => { step with result := .fatal fault }
    else step
  | .resolve =>
    if step.result = .cancelled then step
    else
      match step.session.frontEnd.module? id with
      | none => step
      | some m =>
        let tasks := Task.scan step.session.options.taskTags m.comments
        let (reporter, accepted) := SourceUnit.reportTasks tasks step.unit.reporter
        if accepted then
          let comments := m.comments.map fun c => (⟨c.start, c.stop⟩ : CommentRange)
          { step with unit := { step.unit with reporter, tree.comments := comments } }
        else { step with unit := { step.unit with reporter }, result := .cancelled }
  | .analyse => step
  | .generate =>
    if step.result.isSuccess then
      match step.session.frontEnd.module? id with
      | none => step
      | some m =>
        let (reporter, _) :=
          attributeAll m step.unit.tree step.session.frontEnd.generated step.unit.reporter
        { step with unit := { step.unit with reporter } }
    else step

variable {id : Source.ModuleId} {step : Step Outcome} {stage : Stage}

theorem not_isSuccess (h : step.result ≠ .success) : ¬ step.result.isSuccess = true :=
  fun hsuccess => h (of_decide_eq_true hsuccess)

/-- Only in resolving is something left to do after driving without success. -/
theorem finish_of_ne_success (hresult : step.result ≠ .success) (hstage : stage ≠ .resolve) :
    step.finish id stage = step := by
  cases stage with
  | populate => exact if_neg (not_isSuccess hresult)
  | resolve => exact absurd rfl hstage
  | analyse => rfl
  | generate => exact if_neg (not_isSuccess hresult)

/-- Nothing is done after driving was told to stop. -/
theorem finish_of_cancelled (h : step.result = .cancelled) : step.finish id stage = step := by
  cases stage with
  | resolve => exact if_pos h
  | populate | analyse | generate => exact finish_of_ne_success (by rw [h]; nofun) nofun

/-- The task markers of a module that resolving hands over. -/
def taskReports (step : Step Outcome) (m : Source.Module) : List Report :=
  (Task.scan step.session.options.taskTags m.comments).map .task

section Resolve

variable {m : Source.Module} {r : Reporter}

/-- Resolving locates the comments if all tasks are accepted. -/
theorem finish_resolve_of_accepted (hresult : step.result ≠ .cancelled)
    (hm : step.session.frontEnd.module? id = some m)
    (htasks : step.unit.reporter.submitAll (step.taskReports m) = (r, true)) :
    step.finish id .resolve =
      { step with
        unit := { step.unit with
          reporter := r, tree.comments := m.comments.map fun c => ⟨c.start, c.stop⟩ } } := by
  rw [taskReports] at htasks
  simp only [finish, if_neg hresult, hm, SourceUnit.reportTasks_eq, htasks, if_true]

/-- Resolving is cancelled if a task is refused. -/
theorem finish_resolve_of_refused (hresult : step.result ≠ .cancelled)
    (hm : step.session.frontEnd.module? id = some m)
    (htasks : step.unit.reporter.submitAll (step.taskReports m) = (r, false)) :
    step.finish id .resolve =
      { step with unit := { step.unit with reporter := r }, result := .cancelled } := by
  rw [taskReports] at htasks
  simp only [finish, if_neg hresult, hm, SourceUnit.reportTasks_eq, htasks, Bool.false_eq_true,
    if_false]

theorem finish_resolve_of_none (hm : step.session.frontEnd.module? id = none) :
    step.finish id .resolve = step := by
  simp only [finish, hm, ite_self]

end Resolve

/-- Only resolving can be told to stop after driving. -/
theorem stage_of_finish_cancelled (h : (step.finish id stage).result = .cancelled)
    (hresult : step.result ≠ .cancelled) : stage = .resolve := by
  -- the others keep the result, or replace it by a fault
  cases stage with
  | resolve => rfl
  | analyse => exact absurd h hresult
  | populate =>
    rw [finish] at h
    split at h
    · split at h
      · exact absurd h nofun
      · split at h
        · exact absurd h hresult
        · exact absurd h nofun
    · exact absurd h hresult
  | generate =>
    rw [finish] at h
    split at h
    · split at h <;> exact absurd h hresult
    · exact absurd h hresult

end Step

/-- **A stage** is driving and what comes after it. -/
theorem SourceUnit.perform_eq (u : SourceUnit) (s : Session) (stage : Stage) :
    u.perform s stage = (u.processTo s stage.target).finish u.module stage := by
  cases stage <;> rfl

theorem SourceUnit.perform_of_cancelled {u : SourceUnit} {s : Session} {stage : Stage}
    (h : (u.processTo s stage.target).result = .cancelled) :
    u.perform s stage = u.processTo s stage.target := by
  rw [perform_eq, Step.finish_of_cancelled h]

end HostBridge
