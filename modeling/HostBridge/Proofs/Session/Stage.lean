import HostBridge.Proofs.Binding.Attribution
import HostBridge.Session.Build

/-!
# What the callbacks of a unit do

All stages begin by driving the front end to a phase and recording what it has collected for the
unit, `SourceUnit.processTo`. There are five ways in which this can end, `SourceUnit.Driven`, and
none of them changes anything but the reporter of the unit and the front end of the session.

What a stage does after that stays within the unit: it may build the tree, hand over task markers or
record class files. So the session after a stage is the session after driving, and so are the
diagnostics that the reporter has accepted. Last, the outcome is noted, `Step.noted`, and this
changes nothing else. That is `SourceUnit.run_cases`.
-/

namespace HostBridge

/-- The phase that a stage drives the front end to. -/
def Stage.target : Stage → Phase
  | populate => .conversion
  | resolve => .semanticAnalysis
  | analyse => .canonicalization
  | generate => .finalization

/-- The faults that only say that compilation was told to stop. -/
theorem Source.CompileFault.isCancellation_iff {fault : Source.CompileFault} :
    fault.isCancellation = true ↔ fault = .aborted ∨ fault = .multipleErrors [.abort] := by
  constructor
  · intro h
    unfold isCancellation at h
    split at h
    · exact Or.inl rfl
    · exact Or.inr rfl
    · exact absurd h Bool.false_ne_true
  · rintro (rfl | rfl) <;> rfl

/-- To record problems is never to find nothing wrong. -/
theorem Outcome.ofRecorded_ne_success (diagnostics : Option (List Diagnostic)) :
    ofRecorded diagnostics ≠ .success := by
  cases diagnostics <;> simp [ofRecorded]

namespace SourceUnit

variable {u : SourceUnit} {s : Session} {phase : Phase} {step : Step Outcome} {stage : Stage}

/-! ### Driving -/

/-- **What driving comes to.** -/
inductive Driven (u : SourceUnit) (s : Session) (phase : Phase) : Step Outcome → Prop
  /-- There is nothing to record. -/
  | quiet (hfault : (s.frontEnd.compile phase).2 = none)
      (hquiet : ((s.frontEnd.compile phase).1.collector? u.module).getD [] = []) :
      Driven u s phase ⟨u, { s with frontEnd := (s.frontEnd.compile phase).1 }, .success⟩
  /-- The messages of the unit's module are recorded, up to the first refusal. -/
  | collected (messages : List Source.Message) (hfault : (s.frontEnd.compile phase).2 = none)
      (hmessages : (s.frontEnd.compile phase).1.collector? u.module = some messages)
      (hne : messages ≠ []) :
      Driven u s phase
        ⟨{ u with reporter := ((u.site phase).record messages u.reporter).reporter },
          { s with
            frontEnd := (s.frontEnd.compile phase).1.setCollector u.module
              ((u.site phase).record messages u.reporter).remaining },
          .ofRecorded ((u.site phase).record messages u.reporter).diagnostics⟩
  /-- The front end was told to stop. -/
  | cancelled (fault : Source.CompileFault) (hfault : (s.frontEnd.compile phase).2 = some fault)
      (hcancel : fault.isCancellation = true) :
      Driven u s phase ⟨u, { s with frontEnd := (s.frontEnd.compile phase).1 }, .cancelled⟩
  /-- The problems that a fault carries are recorded, up to the first refusal. -/
  | failed (messages : List Source.Message)
      (hfault : (s.frontEnd.compile phase).2 = some (.multipleErrors messages))
      (hproblems : messages ≠ [.abort]) :
      Driven u s phase
        ⟨{ u with reporter := ((u.site phase).record messages u.reporter).reporter },
          { s with frontEnd := (s.frontEnd.compile phase).1 },
          .ofRecorded ((u.site phase).record messages u.reporter).diagnostics⟩
  /-- The front end is broken. -/
  | broken (message : String) (hfault : (s.frontEnd.compile phase).2 = some (.bug message)) :
      Driven u s phase
        ⟨u, { s with frontEnd := (s.frontEnd.compile phase).1 },
          if u.reporter.hasProblems then .recoverableErrors [] else .fatal (.frontEndBug message)⟩

theorem driven_processTo (u : SourceUnit) (s : Session) (phase : Phase) :
    Driven u s phase (u.processTo s phase) := by
  unfold processTo
  dsimp only
  -- the fault decides, and without one the collector of the unit's module
  cases hfault : (s.frontEnd.compile phase).2 with
  | none =>
    dsimp only
    cases hmessages : (s.frontEnd.compile phase).1.collector? u.module with
    | none => exact .quiet hfault (by rw [hmessages]; rfl)
    | some messages =>
      cases messages with
      | nil => exact .quiet hfault (by rw [hmessages]; rfl)
      | cons m ms =>
        dsimp only
        unfold recordDiagnostics
        rw [hmessages]
        exact .collected _ hfault hmessages (List.cons_ne_nil m ms)
  | some fault =>
    dsimp only
    unfold handleFault
    by_cases hcancel : fault.isCancellation = true
    · rw [if_pos hcancel]
      exact .cancelled fault hfault hcancel
    · rw [if_neg hcancel]
      cases fault with
      | multipleErrors messages =>
        refine .failed messages hfault ?_
        rintro rfl
        exact hcancel rfl
      | bug message =>
        have hbroken := Driven.broken (u := u) message hfault
        dsimp only
        split <;> simp_all
      | aborted => exact absurd rfl hcancel

/-- Driving changes the reporter and the front end. -/
theorem Driven.frame (h : Driven u s phase step) :
    step.unit = { u with reporter := step.unit.reporter } ∧
      step.session = { s with frontEnd := step.session.frontEnd } := by
  cases h <;> exact ⟨rfl, rfl⟩

/-! ### Diagnostics and the other reports -/

theorem diagnostics_reportTasks (tasks : List TaskMarker) (r : Reporter) :
    (reportTasks tasks r).1.diagnostics = r.diagnostics := by
  induction tasks generalizing r with
  | nil => rfl
  | cons t ts ih =>
    have hsubmit : (r.submit (.task t)).1.diagnostics = r.diagnostics := by
      rw [Reporter.diagnostics, r.accepted_submit, List.filterMap_append, Reporter.diagnostics]
      split <;> simp [Report.diagnostic?]
    -- a refused marker ends the run, an accepted one adds no diagnostic
    unfold reportTasks
    dsimp only
    split
    · rw [ih, hsubmit]
    · exact hsubmit

/-! ### Stages -/

/-- After driving, a stage touches the tree and the reporter of its unit, but none of the
diagnostics. -/
theorem perform_frame (u : SourceUnit) (s : Session) (stage : Stage) :
    (u.perform s stage).session = (u.processTo s stage.target).session ∧
      ∃ tree reporter,
        reporter.diagnostics = (u.processTo s stage.target).unit.reporter.diagnostics ∧
        (u.perform s stage).unit = { (u.processTo s stage.target).unit with tree, reporter } := by
  cases stage with
  | populate =>
    -- a tree may have been built
    unfold perform populate
    dsimp only [Stage.target]
    generalize u.processTo s .conversion = step
    split
    · split
      · exact ⟨rfl, _, _, rfl, rfl⟩
      · split <;> exact ⟨rfl, _, _, rfl, rfl⟩
    · exact ⟨rfl, _, _, rfl, rfl⟩
  | resolve =>
    -- task markers may have been reported and comments located
    unfold perform resolve
    dsimp only [Stage.target]
    generalize u.processTo s .semanticAnalysis = step
    split
    · exact ⟨rfl, _, _, rfl, rfl⟩
    · split
      · exact ⟨rfl, _, _, rfl, rfl⟩
      · split <;> exact ⟨rfl, _, _, diagnostics_reportTasks .., rfl⟩
  | analyse => exact ⟨rfl, _, _, rfl, rfl⟩
  | generate =>
    -- class files may have been recorded
    unfold perform generate
    dsimp only [Stage.target]
    generalize u.processTo s .finalization = step
    split
    · split
      · exact ⟨rfl, _, _, rfl, rfl⟩
      · rw [attributeAll_eq]
        refine ⟨rfl, _, _, ?_, rfl⟩
        rfl
    · exact ⟨rfl, _, _, rfl, rfl⟩

/-- A stage does not touch the module, the file and the outcomes of its unit. -/
theorem perform_kept (u : SourceUnit) (s : Session) (stage : Stage) :
    (u.perform s stage).unit.module = u.module ∧ (u.perform s stage).unit.file = u.file ∧
      (u.perform s stage).unit.completed = u.completed := by
  obtain ⟨-, tree, reporter, -, hunit⟩ := u.perform_frame s stage
  rw [hunit, (u.driven_processTo s stage.target).frame.1]
  exact ⟨rfl, rfl, rfl⟩

end SourceUnit

/-! ### Noting outcomes -/

namespace Step

/-- The step with its outcome noted for the stage, unless the stage was told to stop. -/
def noted (stage : Stage) (step : Step Outcome) : Step Outcome :=
  if step.result = .cancelled then step
  else { step with unit := step.unit.complete stage step.result }

variable (stage : Stage) (step : Step Outcome)

/-- A stage that was told to stop may be run again. -/
theorem noted_of_cancelled {step : Step Outcome} (h : step.result = .cancelled) :
    step.noted stage = step :=
  if_pos h

@[simp] theorem result_noted : (step.noted stage).result = step.result := by
  rw [noted]
  split <;> rfl

@[simp] theorem session_noted : (step.noted stage).session = step.session := by
  rw [noted]
  split <;> rfl

theorem unit_noted :
    (step.noted stage).unit =
      { step.unit with completed := (step.noted stage).unit.completed } := by
  rw [noted]
  split <;> rfl

@[simp] theorem module_noted : (step.noted stage).unit.module = step.unit.module := by
  rw [unit_noted]

@[simp] theorem file_noted : (step.noted stage).unit.file = step.unit.file := by
  rw [unit_noted]

@[simp] theorem reporter_noted : (step.noted stage).unit.reporter = step.unit.reporter := by
  rw [unit_noted]

@[simp] theorem tree_noted : (step.noted stage).unit.tree = step.unit.tree := by
  rw [unit_noted]

theorem completed_noted (stage' : Stage) :
    (step.noted stage).unit.completed stage' =
      if stage' = stage ∧ step.result ≠ .cancelled then some step.result
      else step.unit.completed stage' := by
  rw [noted]
  split
  · next hresult => rw [if_neg fun h => h.2 hresult]
  · next hresult =>
    dsimp only [SourceUnit.complete]
    by_cases hstage : stage' = stage
    · rw [if_pos hstage, if_pos ⟨hstage, hresult⟩]
    · rw [if_neg hstage, if_neg fun h => hstage h.1]

end Step

namespace SourceUnit

variable {u : SourceUnit} {s : Session} {stage : Stage}

theorem run_of_completed {outcome : Outcome} (h : u.completed stage = some outcome)
    (s : Session) : u.run s stage = ⟨u, s, outcome⟩ := by
  rw [run, h]

theorem run_of_not_completed (h : u.completed stage = none) (s : Session) :
    u.run s stage = (u.perform s stage).noted stage := by
  rw [run, h, Step.noted]

/-- **What running a stage comes to.** A completed stage is not run again. -/
theorem run_cases (u : SourceUnit) (s : Session) (stage : Stage) :
    (∃ outcome, u.completed stage = some outcome ∧ u.run s stage = ⟨u, s, outcome⟩) ∨
      (u.completed stage = none ∧ (u.run s stage).session = (u.processTo s stage.target).session ∧
        (u.run s stage).unit.reporter.diagnostics =
          (u.processTo s stage.target).unit.reporter.diagnostics ∧
        (u.run s stage).unit.module = u.module ∧ (u.run s stage).unit.file = u.file) := by
  cases hcompleted : u.completed stage with
  | some outcome => exact Or.inl ⟨outcome, rfl, run_of_completed hcompleted s⟩
  | none =>
    right
    obtain ⟨hsession, tree, reporter, hdiagnostics, hunit⟩ := u.perform_frame s stage
    obtain ⟨hmodule, hfile, -⟩ := u.perform_kept s stage
    have hreported : (u.perform s stage).unit.reporter.diagnostics =
        (u.processTo s stage.target).unit.reporter.diagnostics := by
      rw [hunit]
      exact hdiagnostics
    -- noting the outcome changes nothing of what is stated
    rw [run_of_not_completed hcompleted, Step.session_noted, Step.reporter_noted,
      Step.module_noted, Step.file_noted]
    exact ⟨rfl, hsession, hreported, hmodule, hfile⟩

/-- A unit stays a unit of its module. -/
@[simp] theorem module_run (u : SourceUnit) (s : Session) (stage : Stage) :
    (u.run s stage).unit.module = u.module := by
  rcases u.run_cases s stage with ⟨outcome, -, hrun⟩ | ⟨-, -, -, hmodule, -⟩
  · rw [hrun]
  · exact hmodule

/-- Of what the units share, running a stage changes the front end only. -/
theorem session_run (u : SourceUnit) (s : Session) (stage : Stage) :
    ∃ frontEnd, (u.run s stage).session = { s with frontEnd } := by
  rcases u.run_cases s stage with ⟨outcome, -, hrun⟩ | ⟨-, hsession, -⟩
  · rw [hrun]
    exact ⟨_, rfl⟩
  · rw [hsession]
    exact ⟨_, (u.driven_processTo s stage.target).frame.2⟩

end SourceUnit

end HostBridge
