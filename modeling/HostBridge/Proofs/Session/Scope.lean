import HostBridge.Proofs.Binding.Naming
import HostBridge.Proofs.Session.Run

/-!
# The identities of a run

A scope may be built at any time in a run: again and again, before the tree of its unit has been
built, and after its comments have been located. This file shows that two things are true all the
while. The tree of a unit is, but for identities and comments, the one that is built from its
module, or still the empty one: `SourceUnit.TreeOf`. And the lookup environment holds segmented
identities only, so each name has at most one: `Build.Scoped`.

Together with the naming of classes this gives the main statement, `Build.buildScope_names`: after
the scope of a unit has been built, each class of its module is found under its own name, whatever
other units have been bound before.
-/

namespace HostBridge

namespace SourceUnit

variable {r : Recording} {o : Options} {u : SourceUnit} {s : Session} {stage : Stage}

/-! ### The tree of a unit -/

/-- The tree of a unit has been built from its module. -/
def IsBuilt (r : Recording) (o : Options) (u : SourceUnit) : Prop :=
  ∃ m, r.module? u.module = some m ∧ DeclarationTree.build o m = .ok u.tree.cleared

/-- **The tree of a unit.** It is the empty one or has been built from the module; and it has been
built if the unit was populated with success. -/
structure TreeOf (r : Recording) (o : Options) (u : SourceUnit) : Prop where
  tree : u.tree.cleared = {} ∨ u.IsBuilt r o
  populated : u.completed .populate = some .success → u.IsBuilt r o

/-- Populating a unit with success builds its tree; otherwise the tree stays as it is. -/
theorem tree_populate (u : SourceUnit) (s : Session) :
    ((u.populate s).unit.tree = u.tree ∧ (u.populate s).result ≠ .success) ∨
      ((u.populate s).result = .success ∧ ∃ m, s.frontEnd.module? u.module = some m ∧
        DeclarationTree.build s.options m = .ok (u.populate s).unit.tree) := by
  have hdriven := u.driven_processTo s .conversion
  have hmodule : (u.processTo s .conversion).session.frontEnd.module? u.module =
      s.frontEnd.module? u.module := hdriven.module? u.module
  obtain ⟨hunit, hsession⟩ := hdriven.frame
  unfold populate
  dsimp only
  generalize u.processTo s .conversion = step at *
  have htree : step.unit.tree = u.tree := by rw [hunit]
  by_cases hsuccess : step.result.isSuccess = true
  · -- driving went well, so the module is looked up and built
    rw [if_pos hsuccess]
    have hid : step.unit.module = u.module := by rw [hunit]
    have hoptions : step.session.options = s.options := by rw [hsession]
    rw [← hmodule, ← hoptions]
    cases hm : step.session.frontEnd.module? u.module with
    | none => exact Or.inl ⟨htree, by simp⟩
    | some m =>
      dsimp only
      cases hbuild : DeclarationTree.build step.session.options m with
      | ok tree =>
        rw [Outcome.isSuccess, decide_eq_true_eq] at hsuccess
        exact Or.inr ⟨hsuccess, m, rfl, hbuild⟩
      | error fault => exact Or.inl ⟨htree, by simp⟩
  · -- a unit with problems gets no declarations
    rw [if_neg hsuccess]
    rw [Outcome.isSuccess, decide_eq_true_eq] at hsuccess
    exact Or.inl ⟨htree, hsuccess⟩

/-- The other stages may locate the comments, but leave the declarations alone. -/
theorem tree_perform (u : SourceUnit) (s : Session) (hstage : stage ≠ .populate) :
    (u.perform s stage).unit.tree.cleared = u.tree.cleared := by
  have htree : ∀ phase, (u.processTo s phase).unit.tree = u.tree := by
    intro phase
    rw [(u.driven_processTo s phase).frame.1]
  cases stage with
  | populate => exact absurd rfl hstage
  | resolve =>
    unfold perform resolve
    dsimp only
    rw [← htree .semanticAnalysis]
    generalize u.processTo s .semanticAnalysis = step
    split
    · rfl
    · split
      · rfl
      · split <;> rfl
  | analyse => exact congrArg _ (htree .canonicalization)
  | generate =>
    unfold perform generate
    dsimp only
    rw [← htree .finalization]
    generalize u.processTo s .finalization = step
    split
    · split <;> rfl
    · rfl

theorem IsBuilt.congr {w : SourceUnit} (h : u.IsBuilt r o) (hmodule : w.module = u.module)
    (htree : w.tree.cleared = u.tree.cleared) : w.IsBuilt r o := by
  rw [IsBuilt, hmodule, htree]
  exact h

/-- What has the same declarations, and is not populated meanwhile, has the tree of the unit. -/
theorem TreeOf.congr {w : SourceUnit} (h : TreeOf r o u) (hmodule : w.module = u.module)
    (htree : w.tree.cleared = u.tree.cleared)
    (hpopulated : w.completed .populate = some .success → u.completed .populate = some .success) :
    TreeOf r o w where
  tree := by
    rw [htree]
    exact h.tree.imp_right fun hbuilt => hbuilt.congr hmodule htree
  populated hw := (h.populated (hpopulated hw)).congr hmodule htree

theorem TreeOf.of_isBuilt (h : u.IsBuilt r o) : TreeOf r o u := ⟨Or.inr h, fun _ => h⟩

theorem isBuilt_populate (hmodule : s.frontEnd.module? u.module = r.module? u.module)
    (hsuccess : (u.populate s).result = .success) : (u.populate s).unit.IsBuilt r s.options := by
  rcases u.tree_populate s with ⟨-, hne⟩ | ⟨-, m, hm, hbuild⟩
  · exact absurd hsuccess hne
  · have hid : (u.populate s).unit.module = u.module := (u.perform_kept s .populate).1
    refine ⟨m, ?_, ?_⟩
    · rw [hid, ← hmodule, hm]
    · exact (DeclarationTree.cleared_of_build hbuild).symm ▸ hbuild

/-- A stage keeps the tree of a unit. -/
theorem TreeOf.perform (h : TreeOf r s.options u)
    (hmodule : s.frontEnd.module? u.module = r.module? u.module) (stage : Stage) :
    TreeOf r s.options (u.perform s stage).unit := by
  obtain ⟨hid, -, hkept⟩ := u.perform_kept s stage
  by_cases hsuccess : stage = .populate ∧ (u.perform s stage).result = .success
  · -- the tree has just been built
    obtain ⟨rfl, hresult⟩ := hsuccess
    exact .of_isBuilt (isBuilt_populate hmodule hresult)
  · -- the tree is the same but for the comments
    refine h.congr hid ?_ fun hw => hkept ▸ hw
    by_cases hstage : stage = .populate
    · subst hstage
      rcases u.tree_populate s with ⟨htree, -⟩ | ⟨hresult, -⟩
      · exact congrArg _ htree
      · exact absurd ⟨rfl, hresult⟩ hsuccess
    · exact u.tree_perform s hstage

/-- Noting an outcome keeps the tree of a unit, if success in populating it is noted only when it is
built. -/
theorem TreeOf.complete (h : TreeOf r o u) {outcome : Outcome}
    (hbuilt : stage = .populate → outcome = .success → u.IsBuilt r o) :
    TreeOf r o (u.complete stage outcome) where
  tree := h.tree
  populated hw := by
    rw [SourceUnit.complete] at hw
    dsimp only at hw
    split at hw
    · next hstage => exact hbuilt hstage.symm (Option.some.inj hw)
    · exact h.populated hw

/-- **Running a stage** keeps the tree of a unit. -/
theorem TreeOf.run (h : TreeOf r o u) (hoptions : s.options = o)
    (hmodule : s.frontEnd.module? u.module = r.module? u.module) (stage : Stage) :
    TreeOf r o (u.run s stage).unit := by
  subst hoptions
  have hperform := h.perform hmodule stage
  unfold SourceUnit.run
  cases hcompleted : u.completed stage with
  | some outcome => exact h
  | none =>
    dsimp only
    split
    · exact hperform
    · refine hperform.complete ?_
      rintro rfl hresult
      exact isBuilt_populate hmodule hresult

/-- Building the scope keeps the tree of a unit. -/
theorem TreeOf.buildScope (h : TreeOf r o u) : TreeOf r o (u.buildScope s).unit :=
  h.congr rfl u.tree.cleared_bind id

/-- The identities of a unit are segmented. -/
theorem TreeOf.isSegmented (h : TreeOf r o u) : ∀ b ∈ u.tree.bind.bindings, b.IsSegmented := by
  -- the identities that the tree has had before do not matter
  rw [← DeclarationTree.bindings_bind_cleared]
  rcases h.tree with hempty | ⟨m, -, hbuild⟩
  · rw [hempty]
    exact fun b hb => absurd hb List.not_mem_nil
  · exact DeclarationTree.isSegmented_of_build hbuild

end SourceUnit

/-! ### The environment of a run -/

namespace Build

open SourceUnit (TreeOf)

variable {r : Recording} {o : Options} {b : Build}

/-- **The invariant of a run.** The options stay, all units have their trees, and the environment
holds segmented identities only. -/
structure Scoped (r : Recording) (o : Options) (b : Build) : Prop where
  options : b.session.options = o
  units : ∀ u ∈ b.units, TreeOf r o u
  environment : ∀ i ∈ b.session.environment.bindings, i.IsSegmented

/-- A run keeps the trees and the environment. -/
theorem Reachable.scoped (h : Reachable r o b) : Scoped r o b := by
  induction h with
  | fresh =>
    exact ⟨rfl, fun u hu => absurd hu List.not_mem_nil, fun i hi => absurd hi List.not_mem_nil⟩
  | opened _ _ hopen ih =>
    obtain ⟨-, files, file, rfl⟩ := openUnit_cases hopen
    refine ⟨ih.options, fun u hu => ?_, ih.environment⟩
    rcases List.mem_append.1 hu with hu | hu
    · exact ih.units u hu
    · rw [List.mem_singleton.1 hu]
      exact ⟨Or.inl rfl, fun hw => absurd hw (by simp)⟩
  | @called b b' hb i callback answer hcall ih =>
    obtain ⟨u, hu, ⟨stage, rfl⟩ | rfl⟩ := call_cases hcall
    · have hrun := (ih.units u (List.mem_of_getElem? hu)).run ih.options (hb.module? u.module) stage
      obtain ⟨frontEnd, hsession⟩ := u.session_run b.session stage
      rw [hsession]
      refine ⟨ih.options, fun w hw => ?_, ih.environment⟩
      exact (List.mem_or_eq_of_mem_set hw).elim (ih.units w) fun hw => hw ▸ hrun
    · have htree := ih.units u (List.mem_of_getElem? hu)
      refine ⟨ih.options, fun w hw => ?_, fun i hi => ?_⟩
      · exact (List.mem_or_eq_of_mem_set hw).elim (ih.units w) fun hw => hw ▸ htree.buildScope
      · exact (Environment.mem_bindings_registerAll hi).elim (ih.environment i)
          (htree.isSegmented i)

/-- **Each class is found under its own name.** Take any run of a build, and a unit that was
populated with success and whose classes are named as a compiler names them. When its scope is
built, its types are those of the nesting of its classes, each with the identity that bears the name
of its class, and the environment knows that identity by this name, whatever other units have been
bound before. -/
theorem buildScope_names (h : Reachable r o b) {i : Nat} {u : SourceUnit}
    (hu : b.units[i]? = some u) (hpopulated : u.completed .populate = some .success)
    {m : Source.Module} (hm : r.module? u.module = some m) (hnaming : m.FollowsNaming) :
    ∃ (b' : Build) (u' : SourceUnit) (content : Nat → TypeContent) (binding : Nat → TypeBinding),
      b.buildScope i = some b' ∧ b'.units[i]? = some u' ∧
      (∀ place c, m.primaryClasses[place]? = some c →
        TypeContent.ofClass o m.comments c = .ok (content place)) ∧
      u'.tree.types = (Nesting.ofClasses m.primaryClasses).forest content
        (fun place => some (binding place)) m.primaryClasses.length none ∧
      ∀ (place : Nat) c, m.primaryClasses[place]? = some c →
        (binding place).qualifiedName = c.name ∧
        b'.session.environment.lookup? c.name = some (binding place) := by
  have hscoped := h.scoped
  have htree := hscoped.units u (List.mem_of_getElem? hu)
  obtain ⟨m', hm', hbuild⟩ := htree.populated hpopulated
  obtain rfl := Option.some.inj (hm.symm.trans hm')
  obtain ⟨content, binding, hbuilt, htypes, hnames⟩ :=
    DeclarationTree.bind_of_followsNaming hbuild hnaming
  rw [DeclarationTree.types_bind_cleared] at htypes
  have hlt := (List.getElem?_eq_some_iff.1 hu).1
  refine ⟨_, (u.buildScope b.session).unit, content, binding, by rw [buildScope, onUnit, hu]; rfl,
    List.getElem?_set_self hlt, hbuilt, htypes, fun place c hc => ⟨hnames place c hc, ?_⟩⟩
  -- the identity has just been registered, or the same one before it
  rw [← hnames place c hc]
  refine Environment.lookup?_registerAll hscoped.environment htree.isSegmented ?_
  exact (DeclarationTree.mem_bindings_forest htypes).2
    ⟨place, (List.getElem?_eq_some_iff.1 hc).1, rfl⟩

/-- A build of one file with a class nested in another one. -/
def outerInner : Build where
  session :=
    { frontEnd := { units := [{ path := "Outer.groovy", module := .outerInner }] }
      files := ⟨[⟨"Outer.groovy", ""⟩]⟩ }
  units := [{ module := ⟨0⟩, file := ⟨"Outer.groovy", ""⟩, reporter := .accepting }]

theorem buildScope_names_outerInner :
    ∃ b u, Reachable outerInner.session.frontEnd {} b ∧ b.units[0]? = some u ∧
      u.completed .populate = some .success ∧
      ∃ (b' : Build) (binding : Nat → TypeBinding), b.buildScope 0 = some b' ∧
        b'.session.environment.lookup? "p.Outer" = some (binding 0) ∧
        b'.session.environment.lookup? "p.Outer$Inner" = some (binding 1) := by
  have hopened : Reachable outerInner.session.frontEnd {} outerInner :=
    .opened .fresh rfl (show Build.openUnit _ ⟨0⟩ "Outer.groovy" "" .accepting = .ok _ from rfl)
  have hcalled := hopened.called (show outerInner.call 0 (.stage .populate) = some (_, _) from rfl)
  have hsuccess : (outerInner.units[0].run outerInner.session .populate).unit.completed .populate =
      some .success := by decide +kernel
  obtain ⟨b', u', content, binding, hb', -, -, -, hnames⟩ :=
    buildScope_names (i := 0) hcalled rfl hsuccess rfl Source.Module.followsNaming_outerInner
  exact ⟨_, _, hcalled, rfl, hsuccess, b', binding, hb', (hnames 0 _ rfl).2, (hnames 1 _ rfl).2⟩

end Build

end HostBridge
