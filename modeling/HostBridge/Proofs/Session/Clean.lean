import HostBridge.Proofs.FrontEnd.Idle
import HostBridge.Proofs.Session.Obliging
import HostBridge.Proofs.Session.Scope

/-!
# Callbacks with a clean front end

With a clean front end there is nothing that one unit could take away from another. Driving always
ends with success, and all it does is to move the front end on, `SourceUnit.perform_clean`. So what
a callback makes of its unit, and what it answers, are the same in all sessions that differ in
nothing but the phase that has been reached, the registered files and the environment:
`SourceUnit.called_alike`. What it makes of the session depends on the unit only in the identities
that it registers, `SourceUnit.session_called`.
-/

namespace HostBridge

/-- The phase that has been reached after a callback. -/
def Callback.drive : Callback → Phase → Phase
  | .stage next, reached => reached.later next.target
  | .buildScope, reached => reached

namespace SourceUnit

/-- Calls a unit back. A stage answers with its outcome. -/
def called (u : SourceUnit) (s : Session) : Callback → Step (Option Outcome)
  | .stage stage =>
    let step := u.run s stage
    ⟨step.unit, step.session, some step.result⟩
  | .buildScope =>
    let step := u.buildScope s
    ⟨step.unit, step.session, none⟩

/-- The identities that a callback registers. -/
def registers (u : SourceUnit) : Callback → List TypeBinding
  | .stage _ => []
  | .buildScope => u.tree.bind.bindings

end SourceUnit

theorem Build.call_eq (b : Build) (i : Nat) (callback : Callback) :
    b.call i callback = b.onUnit i fun u s => u.called s callback := by
  cases callback with
  | stage stage =>
    rw [call, runStage, onUnit, onUnit, Option.map_map]
    rfl
  | buildScope =>
    rw [call, buildScope, onUnit, onUnit, Option.map_map, Option.map_map]
    rfl

/-- **Sessions that are alike** for all units: only the phase that has been reached, the files and
the environment may differ. -/
structure Session.Alike (s t : Session) : Prop where
  options : s.options = t.options
  frontEnd : s.frontEnd = { t.frontEnd with reached := s.frontEnd.reached }

/-- What is left to do after driving is the same in sessions that are alike. -/
theorem Step.finish_alike {s t : Session} (h : s.Alike t) (u : SourceUnit) (result : Outcome)
    (id : Source.ModuleId) (stage : Stage) :
    (⟨u, s, result⟩ : Step Outcome).finish id stage =
      { (⟨u, t, result⟩ : Step Outcome).finish id stage with session := s } := by
  obtain ⟨f, o, files, environment⟩ := s
  obtain ⟨g, o', files', environment'⟩ := t
  obtain ⟨rfl, hfrontEnd⟩ := h
  dsimp only at hfrontEnd
  generalize f.reached = reached at hfrontEnd
  subst hfrontEnd
  -- the module is looked up in the same files
  have hmodule : ({ g with reached } : Recording).module? id = g.module? id := rfl
  -- all else that a stage reads is the unit, the options and the generated classes
  cases stage with
  | populate =>
    simp only [finish, hmodule]
    split
    · split
      · rfl
      · split <;> rfl
    · rfl
  | resolve =>
    simp only [finish, hmodule]
    split
    · rfl
    · split
      · rfl
      · split <;> rfl
  | analyse => rfl
  | generate =>
    simp only [finish, hmodule]
    split
    · split <;> rfl
    · rfl

/-- The unit with its outcome noted does not depend on the session. -/
theorem Step.unit_noted_congr {step step' : Step Outcome} (hunit : step.unit = step'.unit)
    (hresult : step.result = step'.result) (stage : Stage) :
    (step.noted stage).unit = (step'.noted stage).unit := by
  rw [noted, noted, hresult]
  split
  · exact hunit
  · rw [hunit]

namespace SourceUnit

variable {u : SourceUnit} {s t : Session}

/-- **Driving a clean front end** moves it on, and finds nothing to record. -/
theorem processTo_clean (hs : s.frontEnd.IsClean) (phase : Phase) :
    u.processTo s phase =
      ⟨u, { s with
        frontEnd := { s.frontEnd with reached := s.frontEnd.reached.later phase } }, .success⟩ := by
  have hcompile := hs.compile_eq phase
  have hfault : (s.frontEnd.compile phase).2 = none := by rw [hcompile]
  have hquiet : ((s.frontEnd.compile phase).1.collector? u.module).getD [] = [] := by
    rw [hcompile]
    -- the collector of the module is empty, if the module is known at all
    show ((s.frontEnd.unit? u.module).map (·.collector)).getD [] = []
    cases hv : s.frontEnd.unit? u.module with
    | none => rfl
    | some v => exact hs.collectors v (List.mem_of_find?_eq_some hv)
  rw [(Driven.quiet hfault hquiet).eq, hcompile]

/-- **A stage with a clean front end** moves it on, and then does what it does in any session that
is alike. -/
theorem perform_clean (h : s.Alike t) (hs : s.frontEnd.IsClean) (stage : Stage) :
    u.perform s stage =
      { (⟨u, t, .success⟩ : Step Outcome).finish u.module stage with
        session := { s with
          frontEnd := { s.frontEnd with reached := s.frontEnd.reached.later stage.target } } } := by
  have hmoved : Session.Alike { s with
      frontEnd := { s.frontEnd with reached := s.frontEnd.reached.later stage.target } } t := by
    refine ⟨h.options, ?_⟩
    rw [h.frontEnd]
  rw [perform_eq, processTo_clean hs, Step.finish_alike hmoved]

/-- **A callback** does the same to its unit in sessions that are alike. -/
theorem called_alike (h : s.Alike t) (ht : t.frontEnd.IsClean) (callback : Callback) :
    (u.called s callback).unit = (u.called t callback).unit ∧
      (u.called s callback).result = (u.called t callback).result := by
  cases callback with
  | buildScope => exact ⟨rfl, rfl⟩
  | stage stage =>
    have hs : s.frontEnd.IsClean := h.frontEnd ▸ ht.moved _
    cases hcompleted : u.completed stage with
    | some outcome =>
      rw [called, called, run_of_completed hcompleted, run_of_completed hcompleted]
      exact ⟨rfl, rfl⟩
    | none =>
      have hunit : (u.perform s stage).unit = (u.perform t stage).unit := by
        rw [perform_clean h hs, perform_clean ⟨rfl, rfl⟩ ht]
      have hresult : (u.perform s stage).result = (u.perform t stage).result := by
        rw [perform_clean h hs, perform_clean ⟨rfl, rfl⟩ ht]
      rw [called, called, run_of_not_completed hcompleted, run_of_not_completed hcompleted]
      refine ⟨Step.unit_noted_congr hunit hresult stage, ?_⟩
      dsimp only
      rw [Step.result_noted, Step.result_noted, hresult]

/-- A unit is at most as far as the front end: what it has completed needs no driving. -/
def IsBehind (u : SourceUnit) (reached : Phase) : Prop :=
  ∀ stage, u.completed stage ≠ none → reached.later stage.target = reached

/-- The front end does not fall back. -/
theorem IsBehind.drive {reached : Phase} (h : u.IsBehind reached) (callback : Callback) :
    u.IsBehind (callback.drive reached) := by
  cases callback with
  | buildScope => exact h
  | stage stage =>
    intro stage' hstage'
    rw [Callback.drive, Phase.later_assoc, Phase.later_comm stage.target, ← Phase.later_assoc,
      h stage' hstage']

/-- **What a callback makes of the session**: it moves the front end on and registers identities. -/
theorem session_called (hs : s.frontEnd.IsClean) (hbehind : u.IsBehind s.frontEnd.reached)
    (callback : Callback) :
    (u.called s callback).session =
      { s with
        frontEnd := { s.frontEnd with reached := callback.drive s.frontEnd.reached }
        environment := s.environment.registerAll (u.registers callback) } := by
  cases callback with
  | buildScope => rfl
  | stage stage =>
    rw [called, Callback.drive]
    cases hcompleted : u.completed stage with
    | some outcome =>
      -- nothing is driven, and there is nothing to drive
      rw [run_of_completed hcompleted, hbehind stage (by rw [hcompleted]; nofun)]
      rfl
    | none =>
      rw [run_of_not_completed hcompleted, perform_clean ⟨rfl, rfl⟩ hs, Step.session_noted]
      rfl

/-- After a callback a unit is still behind. -/
theorem isBehind_called (hbehind : u.IsBehind s.frontEnd.reached) (callback : Callback) :
    (u.called s callback).unit.IsBehind (callback.drive s.frontEnd.reached) := by
  cases callback with
  | buildScope => exact hbehind
  | stage stage =>
    intro stage' hstage'
    by_cases heq : stage' = stage
    · -- the stage has just been driven to its target
      rw [heq, Callback.drive, Phase.later_assoc, Phase.later_self]
    · -- another stage has been completed before
      have hcompleted : u.completed stage' ≠ none := by
        cases hcompleted : u.completed stage with
        | some outcome =>
          rw [called, run_of_completed hcompleted] at hstage'
          exact hstage'
        | none =>
          rw [called, run_of_not_completed hcompleted, Step.completed_noted,
            if_neg fun hnoted => heq hnoted.1, (u.perform_kept s stage).2.2] at hstage'
          exact hstage'
      exact hbehind.drive (.stage stage) stage' hcompleted

/-- A callback keeps the tree of a unit. -/
theorem TreeOf.called {r : Recording} (h : TreeOf r s.options u)
    (hmodule : s.frontEnd.module? u.module = r.module? u.module) (callback : Callback) :
    TreeOf r s.options (u.called s callback).unit := by
  cases callback with
  | stage stage => exact h.run rfl hmodule stage
  | buildScope => exact h.buildScope (s := s)

/-- The identities that a callback registers are segmented. -/
theorem TreeOf.isSegmented_registers {r : Recording} {o : Options} (h : TreeOf r o u)
    (callback : Callback) : ∀ c ∈ u.registers callback, c.IsSegmented := by
  cases callback with
  | stage stage => exact fun c hc => absurd hc List.not_mem_nil
  | buildScope => exact h.isSegmented

end SourceUnit

end HostBridge
