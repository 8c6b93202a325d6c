import HostBridge.Proofs.Session.History
import HostBridge.Proofs.Session.Scope

/-!
# The tree of a unit is untouched or built

Three callbacks write to the tree of a unit: populating builds it, building the scope gives its
types their identities, and resolving fills in the ranges of its comments. This file shows that
whatever the order of the callbacks, and however each of them ends, the tree without identities and
ranges is one of two things: the one that is built from the module, if populating the unit has
answered success, and the empty one before that, `Build.tree_untouched_or_built`.

A stage does one of three things to the tree, `SourceUnit.TreeStep`. The invariant of a history is
`SourceUnit.Holds`; it ties the tree to what populating has answered so far.
-/

namespace HostBridge

/-- The ranges of the comments of a module, in their order. -/
def Source.Module.commentRanges (m : Source.Module) : List CommentRange :=
  m.comments.map fun c => ⟨c.start, c.stop⟩

namespace SourceUnit

variable {r : Recording} {o : Options} {answers : List Answer} {i : Nat} {u : SourceUnit}
  {s : Session} {stage : Stage}

/-! ### One stage -/

/-- **What a stage does to the tree of its unit.** -/
inductive TreeStep (u : SourceUnit) (s : Session) (stage : Stage) (step : Step Outcome) : Prop
  /-- The tree stays. Populating has failed then, or was told to stop. -/
  | kept (htree : step.unit.tree = u.tree) (hfailed : stage = .populate → step.result ≠ .success)
  /-- The tree is built from the module. -/
  | built (m : Source.Module) (hstage : stage = .populate) (hresult : step.result = .success)
      (hm : s.frontEnd.module? u.module = some m)
      (hbuild : DeclarationTree.build s.options m = .ok step.unit.tree)
  /-- The comments of the module are located. -/
  | located (m : Source.Module) (hstage : stage = .resolve)
      (hm : s.frontEnd.module? u.module = some m)
      (htree : step.unit.tree = { u.tree with comments := m.commentRanges })

/-- Resolving keeps the tree or locates the comments. -/
theorem treeStep_resolve (u : SourceUnit) (s : Session) : TreeStep u s .resolve (u.resolve s) := by
  have hdriven := u.driven_processTo s .semanticAnalysis
  have hmodule := hdriven.module? u.module
  obtain ⟨hunit, -⟩ := hdriven.frame
  unfold resolve
  dsimp only
  generalize u.processTo s .semanticAnalysis = step at *
  have htree : step.unit.tree = u.tree := by rw [hunit]
  have hid : step.unit.module = u.module := by rw [hunit]
  rw [hid, hmodule]
  split
  · exact .kept htree nofun
  · cases hm : s.frontEnd.module? u.module with
    | none => exact .kept htree nofun
    | some m =>
      dsimp only
      split
      · -- all tasks have been accepted
        refine .located m rfl hm ?_
        rw [← htree]
        rfl
      · exact .kept htree nofun

theorem treeStep_perform (u : SourceUnit) (s : Session) (stage : Stage) :
    TreeStep u s stage (u.perform s stage) := by
  cases stage with
  | populate =>
    rcases u.tree_populate s with ⟨htree, hne⟩ | ⟨hresult, m, hm, hbuild⟩
    · exact .kept htree fun _ => hne
    · exact .built m rfl hresult hm hbuild
  | resolve => exact u.treeStep_resolve s
  | analyse =>
    have hunit := (u.driven_processTo s .canonicalization).frame.1
    exact .kept (by rw [perform, analyse, hunit]) nofun
  | generate =>
    have hunit := (u.driven_processTo s .finalization).frame.1
    refine .kept ?_ nofun
    unfold perform generate
    dsimp only
    generalize u.processTo s .finalization = step at *
    have htree : step.unit.tree = u.tree := by rw [hunit]
    split
    · split <;> exact htree
    · exact htree

/-- Populating a unit without success leaves its tree as it was. -/
theorem tree_run_populate (h : (u.run s .populate).result ≠ .success) :
    (u.run s .populate).unit.tree = u.tree := by
  cases hcompleted : u.completed .populate with
  | some outcome => rw [run_of_completed hcompleted]
  | none =>
    rw [run_of_not_completed hcompleted, Step.result_noted] at h
    rw [run_of_not_completed hcompleted, Step.tree_noted]
    cases u.treeStep_perform s .populate with
    | kept htree => exact htree
    | built m _ hresult => exact absurd hresult h
    | located m hstage => exact absurd hstage nofun

/-! ### A history -/

/-- **The invariant of a history**: the tree is what populating has made of it. -/
structure Holds (r : Recording) (o : Options) (answers : List Answer) (i : Nat)
    (u : SourceUnit) : Prop where
  known : (r.module? u.module).isSome
  populated : u.completed .populate = some .success ↔ ⟨i, .populate, .success⟩ ∈ answers
  built : u.completed .populate = some .success → u.IsBuilt r o
  untouched : u.completed .populate ≠ some .success → u.tree.cleared = {}
  comments : u.tree.comments = [] ∨
    ∃ m, r.module? u.module = some m ∧ u.tree.comments = m.commentRanges

/-- What has the module, the outcomes and the tree of the unit, up to identities, is as good. -/
theorem Holds.congr {w : SourceUnit} (h : Holds r o answers i u) (hmodule : w.module = u.module)
    (hcompleted : w.completed = u.completed) (htree : w.tree.cleared = u.tree.cleared)
    (hcomments : w.tree.comments = u.tree.comments) : Holds r o answers i w where
  known := hmodule ▸ h.known
  populated := hcompleted ▸ h.populated
  built hw := (h.built (hcompleted ▸ hw)).congr hmodule htree
  untouched hw := htree.trans (h.untouched (hcompleted ▸ hw))
  comments := by
    rw [hcomments, hmodule]
    exact h.comments

/-- An answer other than success in populating this unit tells nothing about its tree. -/
theorem Holds.answer {a : Answer} (h : Holds r o answers i u)
    (ha : a ≠ ⟨i, .populate, .success⟩) : Holds r o (answers ++ [a]) i u where
  known := h.known
  populated := by
    rw [h.populated, List.mem_append, List.mem_singleton]
    exact ⟨Or.inl, fun hmem => hmem.resolve_right fun heq => ha heq.symm⟩
  built := h.built
  untouched := h.untouched
  comments := h.comments

/-- Noting an outcome that is not success in populating changes nothing. -/
theorem Holds.noted {step : Step Outcome} (h : Holds r o answers i step.unit)
    (hnone : step.unit.completed stage = none)
    (hne : stage = .populate → step.result ≠ .success) :
    Holds r o (answers ++ [⟨i, stage, step.result⟩]) i (step.noted stage).unit := by
  -- what is noted for another stage does not count, and populating has not succeeded
  have hiff : (step.noted stage).unit.completed .populate = some .success ↔
      step.unit.completed .populate = some .success := by
    rw [step.completed_noted]
    split
    · next hnoted =>
      rw [hnoted.1, hnone]
      exact ⟨fun heq => absurd (Option.some.inj heq) (hne hnoted.1.symm),
        fun heq => absurd heq nofun⟩
    · rfl
  have ha : (⟨i, stage, step.result⟩ : Answer) ≠ ⟨i, .populate, .success⟩ := by
    intro heq
    obtain ⟨-, hstage, hresult⟩ := Answer.mk.inj heq
    exact hne hstage hresult
  refine Holds.answer ?_ ha
  rw [Step.unit_noted]
  exact ⟨h.known, hiff.trans h.populated, fun hw => h.built (hiff.1 hw),
    fun hw => h.untouched fun hu => hw (hiff.2 hu), h.comments⟩

/-- Populating with success builds the tree, and that is noted. -/
theorem Holds.of_build {step : Step Outcome} {m : Source.Module}
    (hm : r.module? step.unit.module = some m) (hresult : step.result = .success)
    (hbuild : DeclarationTree.build o m = .ok step.unit.tree) :
    Holds r o (answers ++ [⟨i, .populate, step.result⟩]) i (step.noted .populate).unit := by
  have hcleared := DeclarationTree.cleared_of_build hbuild
  have hcomments : step.unit.tree.comments = [] := by
    rw [← hcleared]
    rfl
  have hnoted : (step.noted .populate).unit.completed .populate = some .success := by
    rw [step.completed_noted, hresult, if_pos ⟨rfl, nofun⟩]
  have hbuilt : (step.noted .populate).unit.IsBuilt r o := by
    refine ⟨m, by rw [Step.module_noted, hm], ?_⟩
    rw [Step.tree_noted, hcleared, hbuild]
  refine ⟨?_, ⟨fun _ => ?_, fun _ => hnoted⟩, fun _ => hbuilt, fun hw => absurd hnoted hw,
    Or.inl ?_⟩
  · rw [Step.module_noted]
    exact Option.isSome_of_eq_some hm
  · rw [hresult]
    exact List.mem_append_right _ List.mem_cons_self
  · rw [Step.tree_noted, hcomments]

/-- **A stage** that is run keeps the invariant. -/
theorem Holds.run (h : Holds r o answers i u) (hoptions : s.options = o)
    (hmodules : ∀ id, s.frontEnd.module? id = r.module? id) (stage : Stage) :
    Holds r o (answers ++ [⟨i, stage, (u.run s stage).result⟩]) i (u.run s stage).unit := by
  cases hcompleted : u.completed stage with
  | some outcome =>
    rw [run_of_completed hcompleted]
    dsimp only
    by_cases ha : (⟨i, stage, outcome⟩ : Answer) = ⟨i, .populate, .success⟩
    · -- populating has succeeded before
      obtain ⟨-, rfl, rfl⟩ := Answer.mk.inj ha
      have hmem := h.populated.1 hcompleted
      exact ⟨h.known, by simp [h.populated, hmem], h.built, h.untouched, h.comments⟩
    · exact h.answer ha
  | none =>
    obtain ⟨hmodule, -, hkept⟩ := u.perform_kept s stage
    rw [run_of_not_completed hcompleted, Step.result_noted]
    have hnone : (u.perform s stage).unit.completed stage = none := hkept ▸ hcompleted
    cases u.treeStep_perform s stage with
    | kept htree hfailed =>
      exact (h.congr hmodule hkept (by rw [htree]) (by rw [htree])).noted hnone hfailed
    | built m hstage hresult hm hbuild =>
      subst hstage
      rw [hmodules, ← hmodule] at hm
      exact .of_build hm hresult (hoptions ▸ hbuild)
    | located m hstage hm htree =>
      have hcleared : (u.perform s stage).unit.tree.cleared = u.tree.cleared := by
        rw [htree]
        rfl
      refine Holds.noted ⟨?_, ?_, fun hw => ?_, fun hw => ?_, Or.inr ⟨m, ?_, by rw [htree]⟩⟩ hnone
        (fun hp => absurd (hstage.symm.trans hp) nofun)
      · exact hmodule ▸ h.known
      · exact hkept ▸ h.populated
      · exact (h.built (hkept ▸ hw)).congr hmodule hcleared
      · exact hcleared.trans (h.untouched (hkept ▸ hw))
      · rw [hmodule, ← hmodules, hm]

end SourceUnit

namespace Build

open SourceUnit (Holds)

variable {r : Recording} {o : Options} {b : Build} {answers : List Answer}

/-- The invariant holds of every unit at any time. -/
theorem History.holds (h : History r o answers b) {i : Nat} {u : SourceUnit}
    (hu : b.units[i]? = some u) : Holds r o answers i u := by
  refine h.unit_induction (motive := Holds r o) ?_ ?_ ?_ ?_ ?_ hu
  · intro answers i id file reporter hknown hnew
    have hnone : (⟨i, .populate, .success⟩ : Answer) ∉ answers := fun hmem => hnew _ hmem rfl
    exact ⟨hknown, ⟨fun hw => absurd hw (by simp), fun hmem => absurd hmem hnone⟩,
      fun hw => absurd hw (by simp), fun _ => rfl, Or.inl rfl⟩
  · intro answers i u s stage hoptions hmodules hholds
    exact hholds.run hoptions hmodules stage
  · intro answers i u a ha hholds
    exact hholds.answer fun heq => ha (congrArg Answer.unit heq)
  · intro answers i u hholds
    exact hholds.congr rfl rfl u.tree.cleared_bind rfl
  · intro answers i u reporter hholds
    exact hholds.congr rfl rfl rfl rfl

/-- **The tree of a unit is untouched or built.** Take any history of a build, with any faults and
any reporters. If populating a unit has answered success, then the tree of the unit, without
identities and without the ranges of comments, is the one that is built from its module; otherwise
it is the empty one. Its comments are not located, or are exactly those of the module. And whenever
populating the unit answers something other than success, its tree is left as it was. -/
theorem tree_untouched_or_built (h : History r o answers b) {i : Nat} {u : SourceUnit}
    (hu : b.units[i]? = some u) :
    ∃ m, r.module? u.module = some m ∧
      (⟨i, .populate, .success⟩ ∈ answers → DeclarationTree.build o m = .ok u.tree.cleared) ∧
      (⟨i, .populate, .success⟩ ∉ answers → u.tree.cleared = {}) ∧
      (u.tree.comments = [] ∨ u.tree.comments = m.commentRanges) ∧
      ∀ b' outcome u', b.runStage i .populate = some (b', outcome) → outcome ≠ .success →
        b'.units[i]? = some u' → u'.tree = u.tree := by
  have hholds := h.holds hu
  obtain ⟨m, hm⟩ := Option.isSome_iff_exists.1 hholds.known
  refine ⟨m, hm, fun hmem => ?_, fun hmem => ?_, ?_, ?_⟩
  · obtain ⟨m', hm', hbuild⟩ := hholds.built (hholds.populated.2 hmem)
    obtain rfl := Option.some.inj (hm.symm.trans hm')
    exact hbuild
  · exact hholds.untouched fun hw => hmem (hholds.populated.1 hw)
  · refine hholds.comments.imp_right ?_
    rintro ⟨m', hm', hcomments⟩
    obtain rfl := Option.some.inj (hm.symm.trans hm')
    exact hcomments
  · intro b' outcome u' hrun hne hu'
    obtain ⟨w, hw, rfl, rfl⟩ := runStage_cases hrun
    obtain rfl := Option.some.inj (hu.symm.trans hw)
    rw [List.getElem?_set_self (List.getElem?_eq_some_iff.1 hu).1] at hu'
    obtain rfl := Option.some.inj hu'
    exact SourceUnit.tree_run_populate hne

/-- A recording of one file with a nested class, whose compilation is told to stop once. -/
def stoppedOnce : Recording where
  units := [{ path := "Outer.groovy", module := .outerInner }]
  faults := [⟨.conversion, .aborted⟩]

/-- Populating is told to stop and then tried again, after a scope has been built in vain. -/
theorem tree_untouched_or_built_stoppedOnce :
    ∃ answers b u m, History stoppedOnce {} answers b ∧ b.units[0]? = some u ∧
      answers = [⟨0, .populate, .cancelled⟩, ⟨0, .populate, .success⟩] ∧
      stoppedOnce.module? u.module = some m ∧ DeclarationTree.build {} m = .ok u.tree.cleared ∧
      u.tree.types ≠ [] := by
  have hopened : History stoppedOnce {} _ _ :=
    .opened .fresh (show Build.openUnit _ ⟨0⟩ "Outer.groovy" "" .accepting = .ok _ from rfl)
  have hstopped := hopened.ran (show Build.runStage _ 0 .populate = some (_, .cancelled) from rfl)
  have hscoped := hstopped.bound (show Build.buildScope _ 0 = some _ from rfl)
  have hpopulated := hscoped.ran (show Build.runStage _ 0 .populate = some (_, .success) from rfl)
  have hbound := hpopulated.bound (show Build.buildScope _ 0 = some _ from rfl)
  obtain ⟨m, hm, hbuilt, -⟩ := tree_untouched_or_built (i := 0) hbound rfl
  exact ⟨_, _, _, m, hbound, rfl, rfl, hm, hbuilt (by simp), by decide +kernel⟩

end Build

end HostBridge
