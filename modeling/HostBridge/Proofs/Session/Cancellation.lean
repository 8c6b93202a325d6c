import HostBridge.Proofs.Session.Finish
import HostBridge.Proofs.Session.History

/-!
# A stage stops when it is told to

A stage is told to stop in two ways: the reporter refuses a call, or the front end raises a
cancellation. This file shows that a stage heeds both, `Build.cancelled_iff_refused`: it answers
that it was cancelled exactly if one of the two has happened in this very call; after a refusal it
makes no other call; and that a stage was cancelled is never noted as its outcome.

A stage calls its reporter in two places: when it records messages and when it reports tasks. In
either place calls end with the first refusal, which `Reporter.Submitted` tells. `Step.Heeds` is
what this comes to for a step as a whole. It is shown first for driving the front end, then for what
a stage does after that, where a stage that goes on has not been refused anything before.
-/

namespace HostBridge

/-- The front end is told to stop when it is driven to this phase. -/
def Recording.RaisesCancellation (f : Recording) (phase : Phase) : Prop :=
  ∃ fault, (f.compile phase).2 = some fault ∧ (fault = .aborted ∨ fault = .multipleErrors [.abort])

/-- **A step that stops when it is told to**, with the calls it makes: it is cancelled exactly if
it was told so, `raised`, or if a call was refused. The refused call is the last one, and no class
file is recorded then. -/
structure Step.Heeds (r : Reporter) (raised : Prop) (step : Step Outcome)
    (calls : List (Report × Bool)) : Prop where
  transcript : step.unit.reporter.transcript = r.transcript ++ calls
  cancelled : step.result = .cancelled ↔ (∃ call ∈ calls, call.2 = false) ∨ raised
  last : ∀ call ∈ calls.dropLast, call.2 = true
  classFiles : (∃ call ∈ calls, call.2 = false) → step.unit.reporter.classFiles = r.classFiles

namespace SourceUnit

variable {u : SourceUnit} {s : Session} {phase : Phase} {stage : Stage} {step : Step Outcome}

/-! ### Driving -/

/-- Recording messages stops at a refusal. -/
theorem heeds_record (site : Site) (messages : List Source.Message) (u : SourceUnit)
    (s : Session) :
    ∃ calls, Step.Heeds u.reporter False
      ⟨{ u with reporter := (site.record messages u.reporter).reporter }, s,
        .ofRecorded (site.record messages u.reporter).diagnostics⟩ calls := by
  obtain ⟨calls, accepted, hcalls, hreporter, hdiagnostics, -⟩ :=
    site.record_cases messages u.reporter
  rw [hreporter, hdiagnostics]
  refine ⟨calls, rfl, ?_, hcalls.accepted_of_mem_dropLast, fun _ => rfl⟩
  rw [hcalls.refused_iff, or_false]
  cases accepted with
  | true => exact ⟨nofun, nofun⟩
  | false => exact ⟨fun _ => rfl, fun _ => rfl⟩

/-- **Driving** stops at a refusal or at a cancellation of the front end. -/
theorem Driven.heeds (h : Driven u s phase step) :
    ∃ calls, Step.Heeds u.reporter (s.frontEnd.RaisesCancellation phase) step calls := by
  -- a way to end without a call, and whether the front end was told to stop
  have quiet : ∀ {s' : Session} {outcome : Outcome},
      (outcome = .cancelled ↔ s.frontEnd.RaisesCancellation phase) →
      ∃ calls, Step.Heeds u.reporter (s.frontEnd.RaisesCancellation phase) ⟨u, s', outcome⟩
        calls := by
    intro s' outcome hiff
    refine ⟨[], (List.append_nil _).symm, ?_, fun call hcall => ?_, fun _ => rfl⟩
    · simpa using hiff
    · exact absurd hcall List.not_mem_nil
  -- where the fault is known, it decides
  have raised_iff : ∀ {fault}, (s.frontEnd.compile phase).2 = some fault →
      (s.frontEnd.RaisesCancellation phase ↔
        fault = .aborted ∨ fault = .multipleErrors [.abort]) := by
    intro fault hfault
    constructor
    · rintro ⟨fault', hfault', hcancel⟩
      obtain rfl := Option.some.inj (hfault.symm.trans hfault')
      exact hcancel
    · exact fun hcancel => ⟨fault, hfault, hcancel⟩
  have not_raised : (s.frontEnd.compile phase).2 = none →
      ¬ s.frontEnd.RaisesCancellation phase := by
    rintro hnone ⟨fault, hfault, -⟩
    exact absurd (hnone.symm.trans hfault) nofun
  cases h with
  | quiet hfault => exact quiet ⟨nofun, fun hraised => absurd hraised (not_raised hfault)⟩
  | collected messages hfault =>
    obtain ⟨calls, hheeds⟩ := heeds_record (u.site phase) messages u _
    exact ⟨calls, hheeds.transcript, by rw [hheeds.cancelled, eq_false (not_raised hfault)],
      hheeds.last, hheeds.classFiles⟩
  | cancelled fault hfault hcancel =>
    rw [Source.CompileFault.isCancellation_iff] at hcancel
    exact quiet ⟨fun _ => (raised_iff hfault).2 hcancel, fun _ => rfl⟩
  | failed messages hfault hproblems =>
    have hraised : ¬ s.frontEnd.RaisesCancellation phase := by
      rw [raised_iff hfault]
      rintro (heq | heq)
      · exact absurd heq nofun
      · exact hproblems (Source.CompileFault.multipleErrors.inj heq)
    obtain ⟨calls, hheeds⟩ := heeds_record (u.site phase) messages u _
    exact ⟨calls, hheeds.transcript, by rw [hheeds.cancelled, eq_false hraised], hheeds.last,
      hheeds.classFiles⟩
  | broken message hfault =>
    refine quiet ⟨fun heq => ?_, fun hraised => ?_⟩
    · split at heq <;> exact absurd heq nofun
    · rw [raised_iff hfault] at hraised
      exact absurd hraised (by simp)

/-- Driving records no class file. -/
theorem Driven.classFiles (h : Driven u s phase step) :
    step.unit.reporter.classFiles = u.reporter.classFiles := by
  have hrecord : ∀ messages,
      ((u.site phase).record messages u.reporter).reporter.classFiles = u.reporter.classFiles := by
    intro messages
    obtain ⟨calls, -, -, hreporter, -⟩ := (u.site phase).record_cases messages u.reporter
    rw [hreporter]
    rfl
  cases h with
  | collected messages => exact hrecord messages
  | failed messages => exact hrecord messages
  | quiet | cancelled | broken => rfl

end SourceUnit

/-! ### Stages -/

namespace Step.Heeds

variable {r : Reporter} {raised : Prop} {step step' : Step Outcome} {calls : List (Report × Bool)}

/-- A step that has not been told to stop may go on, if it makes no other call. -/
theorem goOn (h : Heeds r raised step calls) (hresult : step.result ≠ .cancelled)
    (htranscript : step'.unit.reporter.transcript = step.unit.reporter.transcript)
    (hresult' : step'.result ≠ .cancelled) : Heeds r raised step' calls where
  transcript := htranscript.trans h.transcript
  cancelled := ⟨fun heq => absurd heq hresult', fun hor => absurd (h.cancelled.2 hor) hresult⟩
  last := h.last
  classFiles hrefused := absurd (h.cancelled.2 (Or.inl hrefused)) hresult

/-- A step that has not been told to stop may hand over reports, if it ends with a refusal. -/
theorem submit (h : Heeds r raised step calls) (hresult : step.result ≠ .cancelled)
    (hfiles : step.unit.reporter.classFiles = r.classFiles) {reports : List Report}
    {more : List (Report × Bool)} {accepted : Bool}
    (hmore : Reporter.Submitted reports more accepted)
    (hreporter : step'.unit.reporter = step.unit.reporter.heard more)
    (hresult' : step'.result = .cancelled ↔ accepted = false) :
    Heeds r raised step' (calls ++ more) := by
  -- nothing has been refused so far
  have hnone : ¬ ((∃ call ∈ calls, call.2 = false) ∨ raised) := mt h.cancelled.2 hresult
  rw [not_or] at hnone
  have haccepted : ∀ call ∈ calls, call.2 = true := by
    intro call hcall
    by_contra hfalse
    exact hnone.1 ⟨call, hcall, Bool.not_eq_true _ ▸ hfalse⟩
  -- the calls of both come one after the other
  refine ⟨?_, ?_, ?_, fun _ => ?_⟩
  · rw [hreporter, ← List.append_assoc, ← h.transcript]
    rfl
  · rw [hresult', ← hmore.refused_iff, or_iff_left hnone.2]
    constructor
    · rintro ⟨call, hcall, hrefused⟩
      exact ⟨call, List.mem_append_right _ hcall, hrefused⟩
    · rintro ⟨call, hcall, hrefused⟩
      rcases List.mem_append.1 hcall with hcall | hcall
      · exact absurd ⟨call, hcall, hrefused⟩ hnone.1
      · exact ⟨call, hcall, hrefused⟩
  · intro call hcall
    -- the last call of all is the last of the later ones, if there are any
    rcases eq_or_ne more [] with rfl | hne
    · rw [List.append_nil] at hcall
      exact h.last call hcall
    · rw [List.dropLast_append_of_ne_nil hne] at hcall
      rcases List.mem_append.1 hcall with hcall | hcall
      · exact haccepted call hcall
      · exact hmore.accepted_of_mem_dropLast call hcall
  · rw [hreporter, ← hfiles]
    rfl

/-- What a stage does after driving stops when it is told to. -/
theorem finish (h : Heeds r raised step calls)
    (hfiles : step.unit.reporter.classFiles = r.classFiles) (id : Source.ModuleId)
    (stage : Stage) : ∃ calls, Heeds r raised (step.finish id stage) calls := by
  by_cases hresult : step.result = .cancelled
  · rw [finish_of_cancelled hresult]
    exact ⟨calls, h⟩
  cases stage with
  | populate =>
    -- the tree is built or not, and neither needs the reporter
    refine ⟨calls, ?_⟩
    rw [Step.finish]
    split
    · split
      · exact h.goOn hresult rfl (by simp)
      · split
        · exact h.goOn hresult rfl hresult
        · exact h.goOn hresult rfl (by simp)
    · exact h
  | resolve =>
    cases hm : step.session.frontEnd.module? id with
    | none =>
      rw [finish_resolve_of_none hm]
      exact ⟨calls, h⟩
    | some m =>
      obtain ⟨more, accepted, hmore, htasks⟩ :=
        Reporter.submitAll_cases (step.taskReports m) step.unit.reporter
      refine ⟨calls ++ more, ?_⟩
      cases accepted with
      | true =>
        rw [finish_resolve_of_accepted hresult hm htasks]
        exact h.submit hresult hfiles hmore rfl (iff_of_false hresult (by decide))
      | false =>
        rw [finish_resolve_of_refused hresult hm htasks]
        exact h.submit hresult hfiles hmore rfl (iff_of_true rfl rfl)
  | analyse => exact ⟨calls, h⟩
  | generate =>
    refine ⟨calls, ?_⟩
    rw [Step.finish]
    split
    · split
      · exact h
      · -- class files are recorded
        rw [attributeAll_eq]
        exact h.goOn hresult rfl hresult
    · exact h

/-- To note the outcome is no call. -/
theorem noted (h : Heeds r raised step calls) (stage : Stage) :
    Heeds r raised (step.noted stage) calls := by
  refine ⟨?_, ?_, h.last, ?_⟩
  · rw [Step.reporter_noted, h.transcript]
  · rw [Step.result_noted, h.cancelled]
  · rw [Step.reporter_noted]
    exact h.classFiles

end Step.Heeds

namespace SourceUnit

variable {u : SourceUnit} {s : Session}

/-- **A stage** stops when it is told to. -/
theorem heeds_perform (u : SourceUnit) (s : Session) (stage : Stage) :
    ∃ calls, Step.Heeds u.reporter (s.frontEnd.RaisesCancellation stage.target)
      (u.perform s stage) calls := by
  obtain ⟨calls, h⟩ := (u.driven_processTo s stage.target).heeds
  rw [perform_eq]
  exact h.finish (u.driven_processTo s stage.target).classFiles u.module stage

/-- **Running a stage** stops when it is told to. A stage that has been completed is told nothing,
and it has not been cancelled. -/
theorem heeds_run (s : Session) (stage : Stage) (hnoted : u.completed stage ≠ some .cancelled) :
    ∃ calls, Step.Heeds u.reporter
      (u.completed stage = none ∧ s.frontEnd.RaisesCancellation stage.target) (u.run s stage)
      calls := by
  cases hcompleted : u.completed stage with
  | some outcome =>
    rw [run_of_completed hcompleted]
    have hresult : outcome ≠ .cancelled := fun heq => hnoted (heq ▸ hcompleted)
    refine ⟨[], (List.append_nil _).symm, by simpa using hresult, fun call hcall => ?_, fun _ => rfl⟩
    exact absurd hcall List.not_mem_nil
  | none =>
    obtain ⟨calls, h⟩ := u.heeds_perform s stage
    rw [run_of_not_completed hcompleted]
    simp only [true_and]
    exact ⟨calls, h.noted stage⟩

/-- That a stage was cancelled is not noted. -/
theorem completed_run_ne_cancelled (h : ∀ stage, u.completed stage ≠ some .cancelled)
    (s : Session) (stage stage' : Stage) :
    (u.run s stage).unit.completed stage' ≠ some .cancelled := by
  cases hcompleted : u.completed stage with
  | some outcome =>
    rw [run_of_completed hcompleted]
    exact h stage'
  | none =>
    obtain ⟨-, -, hkept⟩ := u.perform_kept s stage
    rw [run_of_not_completed hcompleted, Step.completed_noted]
    split
    · next hnoted => exact fun heq => hnoted.2 (Option.some.inj heq)
    · rw [hkept]
      exact h stage'

end SourceUnit

/-! ### A build -/

namespace Build

variable {r : Recording} {o : Options} {b b' : Build} {answers : List Answer}

/-- At no time is it noted of any unit that a stage was cancelled. -/
theorem History.completed_ne_cancelled (h : History r o answers b) {u : SourceUnit}
    (hu : u ∈ b.units) (stage : Stage) : u.completed stage ≠ some .cancelled := by
  obtain ⟨i, hi⟩ := List.mem_iff_getElem?.1 hu
  -- of all that happens to a unit, only running a stage notes an outcome
  revert stage
  refine h.unit_induction
    (motive := fun _ _ u => ∀ stage, u.completed stage ≠ some .cancelled) ?_ ?_ ?_ ?_ ?_ hi
  · exact fun _ _ _ _ _ => nofun
  · exact fun s stage _ _ hu => SourceUnit.completed_run_ne_cancelled hu s stage
  · exact fun _ _ hu => hu
  · exact fun hu => hu
  · exact fun _ hu => hu

/-- **A stage is cancelled exactly if it is told to stop.** At any time in a history of a build, run
a stage of a unit. It answers that it was cancelled exactly if its reporter refuses one of the calls
that the stage makes, or if the front end is told to stop while the stage drives it; a stage that
has been completed does not drive it. The stage makes no call after one was refused, and records no
class files then. And no unit ever notes of a stage that it was cancelled. -/
theorem cancelled_iff_refused (h : History r o answers b) {i : Nat} {stage : Stage}
    {outcome : Outcome} (hrun : b.runStage i stage = some (b', outcome)) :
    ∃ u u' calls, b.units[i]? = some u ∧ b'.units[i]? = some u' ∧
      u'.reporter.transcript = u.reporter.transcript ++ calls ∧
      (outcome = .cancelled ↔ (∃ call ∈ calls, call.2 = false) ∨
        (u.completed stage = none ∧ b.session.frontEnd.RaisesCancellation stage.target)) ∧
      (∀ call ∈ calls.dropLast, call.2 = true) ∧
      ((∃ call ∈ calls, call.2 = false) → u'.reporter.classFiles = u.reporter.classFiles) ∧
      ∀ w ∈ b'.units, ∀ stage, w.completed stage ≠ some .cancelled := by
  have hnoted : ∀ w ∈ b'.units, ∀ stage, w.completed stage ≠ some .cancelled :=
    fun w hw stage => (h.ran hrun).completed_ne_cancelled hw stage
  obtain ⟨u, hu, rfl, rfl⟩ := runStage_cases hrun
  obtain ⟨calls, hheeds⟩ := SourceUnit.heeds_run b.session stage
    (h.completed_ne_cancelled (List.mem_of_getElem? hu) stage)
  exact ⟨u, _, calls, hu, List.getElem?_set_self (List.getElem?_eq_some_iff.1 hu).1,
    hheeds.transcript, hheeds.cancelled, hheeds.last, hheeds.classFiles, hnoted⟩

/-- A build of one file with a problem, whose reporter refuses every call. -/
def oneProblem : Build where
  session :=
    { frontEnd :=
        { units := [{ path := "Outer.groovy", module := .outerInner, collector := [.simple "no"] }] }
      files := ⟨[⟨"Outer.groovy", ""⟩]⟩ }
  units := [{ module := ⟨0⟩, file := ⟨"Outer.groovy", ""⟩, reporter := .acceptingFirst 0 }]

/-- Populating is told to stop by a reporter that refuses the one diagnostic, as the front end does
not tell it to. -/
theorem cancelled_iff_refused_oneProblem :
    ∃ b' u', History oneProblem.session.frontEnd {} [] oneProblem ∧
      oneProblem.runStage 0 .populate = some (b', .cancelled) ∧ b'.units[0]? = some u' ∧
      ∃ call ∈ u'.reporter.transcript, call.2 = false := by
  have hopened : History oneProblem.session.frontEnd {} [] oneProblem :=
    .opened .fresh
      (show Build.openUnit _ ⟨0⟩ "Outer.groovy" "" (.acceptingFirst 0) = .ok _ from rfl)
  have hanswer : (oneProblem.runStage 0 .populate).map (·.2) = some .cancelled := by
    decide +kernel
  obtain ⟨⟨b', outcome⟩, hrun, rfl⟩ := Option.map_eq_some_iff.1 hanswer
  obtain ⟨u, u', calls, hu, hu', htranscript, hcancelled, -⟩ := cancelled_iff_refused hopened hrun
  obtain rfl := Option.some.inj hu
  -- nothing has been told before, and no fault is scheduled
  refine ⟨b', u', hopened, hrun, hu', ?_⟩
  rw [htranscript]
  refine (hcancelled.1 rfl).resolve_right ?_
  rintro ⟨-, fault, hfault, -⟩
  have hnone : (oneProblem.session.frontEnd.compile .conversion).2 = none := by decide +kernel
  exact absurd (hnone.symm.trans hfault) nofun

end Build

end HostBridge
