import HostBridge.Proofs.FrontEnd.Release
import HostBridge.Proofs.Session.Stage

/-!
# Runs of a build

The host opens units and calls them back, in any order it likes. `Build.Reachable r o b` says that
`b` is what some such run makes of a fresh session with the recording `r` and the options `o`: units
are opened at any time, each with a reporter that has not been told anything yet, and every callback
may come at any time for any open unit. What holds of all runs is shown by induction over them, with
two inversion lemmas for the step: `Build.openUnit_cases` and `Build.call_cases`.

A run does two things to the front end: it compiles, and it takes messages out of collectors. What
these two keep is true in every run, `Reachable.frontEnd_induction`; so the front end plays the
recording, `Reachable.plays`, and the modules are those of the recording, `Reachable.module?`.
-/

namespace HostBridge

namespace Build

variable {r : Recording} {o : Options} {b b' : Build}

/-- **Reachable builds.** -/
inductive Reachable (r : Recording) (o : Options) : Build → Prop
  | fresh : Reachable r o ⟨{ frontEnd := r, options := o }, []⟩
  | opened {b b' : Build} (h : Reachable r o b) {id : Source.ModuleId} {path text : String}
      {reporter : Reporter} (hnew : reporter.transcript = [])
      (hopen : b.openUnit id path text reporter = .ok b') : Reachable r o b'
  | called {b b' : Build} (h : Reachable r o b) {i : Nat} {callback : Callback}
      {answer : Option Outcome} (hcall : b.call i callback = some (b', answer)) : Reachable r o b'

theorem openUnit_cases {id : Source.ModuleId} {path text : String} {reporter : Reporter}
    (h : b.openUnit id path text reporter = .ok b') :
    (b.session.frontEnd.module? id).isSome ∧ ∃ files file,
      b' = ⟨{ b.session with files }, b.units ++ [{ module := id, file, reporter }]⟩ := by
  rw [openUnit, Session.openUnit] at h
  cases hmodule : b.session.frontEnd.module? id with
  | none =>
    rw [hmodule] at h
    simp at h
  | some m =>
    rw [hmodule] at h
    exact ⟨rfl, _, _, (Except.ok.inj h).symm⟩

/-- A callback is a stage that is run or a scope that is built. -/
theorem call_cases {i : Nat} {callback : Callback} {answer : Option Outcome}
    (h : b.call i callback = some (b', answer)) :
    ∃ u, b.units[i]? = some u ∧
      ((∃ stage, b' = ⟨(u.run b.session stage).session,
        b.units.set i (u.run b.session stage).unit⟩) ∨
        b' = ⟨(u.buildScope b.session).session, b.units.set i (u.buildScope b.session).unit⟩) := by
  cases callback with
  | stage stage =>
    rw [call, runStage, onUnit] at h
    cases hu : b.units[i]? with
    | none =>
      rw [hu] at h
      simp at h
    | some u =>
      rw [hu] at h
      exact ⟨u, rfl, Or.inl ⟨stage, (Prod.mk.inj (Option.some.inj h)).1.symm⟩⟩
  | buildScope =>
    rw [call, buildScope, onUnit] at h
    cases hu : b.units[i]? with
    | none =>
      rw [hu] at h
      simp at h
    | some u =>
      rw [hu] at h
      exact ⟨u, rfl, Or.inr (Prod.mk.inj (Option.some.inj h)).1.symm⟩

/-- A callback does not change for which modules units are open. -/
theorem modules_call {i : Nat} {callback : Callback} {answer : Option Outcome}
    (hcall : b.call i callback = some (b', answer)) :
    b'.units.map (·.module) = b.units.map (·.module) := by
  have hset : ∀ {u u' : SourceUnit}, b.units[i]? = some u → u'.module = u.module →
      (b.units.set i u').map (·.module) = b.units.map (·.module) := by
    intro u u' hu hmodule
    have hlt := (List.getElem?_eq_some_iff.1 hu).1
    refine List.ext_getElem? fun j => ?_
    rw [List.getElem?_map, List.getElem?_map, List.getElem?_set]
    by_cases hij : i = j
    · subst hij
      rw [if_pos rfl, if_pos hlt, hu, Option.map_some, Option.map_some, hmodule]
    · rw [if_neg hij]
  obtain ⟨u, hu, ⟨stage, rfl⟩ | rfl⟩ := call_cases hcall
  · refine hset hu ?_
    rcases u.run_cases b.session stage with ⟨outcome, -, hrun⟩ | ⟨-, -, -, hmodule, -⟩
    · rw [hrun]
    · exact hmodule
  · exact hset hu rfl

end Build

/-! ### The front end during a run -/

/-- Driving a unit compiles and may take messages out of a collector. What neither of the two
destroys is still true of the front end afterwards. -/
theorem SourceUnit.Driven.frontEnd_induction {u : SourceUnit} {s : Session} {phase : Phase}
    {step : Step Outcome}
    (h : Driven u s phase step) {motive : Recording → Prop}
    (compile : ∀ f target, motive f → motive (f.compile target).1)
    (setCollector : ∀ f id messages, motive f → motive (f.setCollector id messages))
    (start : motive s.frontEnd) : motive step.session.frontEnd := by
  have hcompiled := compile s.frontEnd phase start
  cases h with
  | collected => exact setCollector _ _ _ hcompiled
  | quiet | cancelled | failed | broken => exact hcompiled

/-- Driving changes no module. -/
theorem SourceUnit.Driven.module? {u : SourceUnit} {s : Session} {phase : Phase}
    {step : Step Outcome} (h : Driven u s phase step) (id : Source.ModuleId) :
    step.session.frontEnd.module? id = s.frontEnd.module? id := by
  refine h.frontEnd_induction (motive := fun f => f.module? id = s.frontEnd.module? id) ?_ ?_ rfl
  · intro f target hf
    rw [f.module?_compile, hf]
  · intro f id' messages hf
    rw [f.module?_setCollector, hf]

/-- Running a stage changes no module. -/
theorem SourceUnit.module?_run (u : SourceUnit) (s : Session) (stage : Stage)
    (id : Source.ModuleId) :
    (u.run s stage).session.frontEnd.module? id = s.frontEnd.module? id := by
  rcases u.run_cases s stage with ⟨outcome, -, hrun⟩ | ⟨-, hsession, -⟩
  · rw [hrun]
  · rw [hsession]
    exact (u.driven_processTo s stage.target).module? id

namespace Build.Reachable

variable {r : Recording} {o : Options} {b : Build}

/-- **Induction over what happens to the front end.** What is true of the recording, and is neither
destroyed by compiling nor by taking messages out of a collector, is true of the front end at any
time. -/
theorem frontEnd_induction (h : Reachable r o b) {motive : Recording → Prop}
    (compile : ∀ f target, motive f → motive (f.compile target).1)
    (setCollector : ∀ f id messages, motive f → motive (f.setCollector id messages))
    (start : motive r) : motive b.session.frontEnd := by
  induction h with
  | fresh => exact start
  | opened _ _ hopen ih =>
    obtain ⟨-, files, file, rfl⟩ := openUnit_cases hopen
    exact ih
  | called _ hcall ih =>
    obtain ⟨u, -, ⟨stage, rfl⟩ | rfl⟩ := call_cases hcall
    · rcases u.run_cases _ stage with ⟨outcome, -, hrun⟩ | ⟨-, hsession, -⟩
      · -- the stage has been completed before
        rw [hrun]
        exact ih
      · dsimp only
        rw [hsession]
        exact (u.driven_processTo _ _).frontEnd_induction compile setCollector ih
    · -- building a scope does not touch the front end
      exact ih

/-- The front end plays the recording. -/
theorem plays (hr : r.IsFresh) (h : Reachable r o b) : r.Plays b.session.frontEnd :=
  h.frontEnd_induction (fun _ target hf => (hf.compile target).1)
    (fun _ id messages hf => hf.setCollector id messages) (.refl hr)

/-- The modules are those of the recording. -/
theorem module? (h : Reachable r o b) (id : Source.ModuleId) :
    b.session.frontEnd.module? id = r.module? id := by
  refine h.frontEnd_induction (motive := fun f => f.module? id = r.module? id) ?_ ?_ rfl
  · intro f target hf
    rw [f.module?_compile, hf]
  · intro f id' messages hf
    rw [f.module?_setCollector, hf]

end Build.Reachable

end HostBridge
