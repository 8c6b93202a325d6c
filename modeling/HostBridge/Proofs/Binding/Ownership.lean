import HostBridge.Proofs.Binding.Attribution

/-!
# Every generated class has one owner

The generated classes of a build come in one list, and every file goes through all of it to pick its
own. Nothing but the names says which ones these are. This file shows that no generated class is
picked twice if the names of the classes of two files are apart, `Source.Module.NamesApart`.

Both names that a generated class continues are prefixes of it, so one of them is a prefix of the
other, and what follows it there is what follows it in the generated name: nothing, or a `$`. So one
of the two encloses the other one, `Encloses.total`, which names that are apart exclude.
-/

namespace HostBridge

variable {m m' : Source.Module} {name name' generated : String}

/-! ### Two enclosing names -/

instance (name generated : String) : Decidable (Encloses name generated) :=
  decidable_of_iff _ belongsTo_iff

/-- Of two names that enclose a generated class the longer one is enclosed by the other. -/
theorem Encloses.of_length_le (h : Encloses name generated) (h' : Encloses name' generated)
    (hle : name.length ≤ name'.length) : Encloses name name' := by
  rcases Nat.eq_or_lt_of_le hle with heq | hlt
  · -- prefixes of the same length are the same
    rw [← String.length_toList, ← String.length_toList] at heq
    have hfront := List.prefix_of_prefix_length_le h.isPrefix h'.isPrefix (Nat.le_of_eq heq)
    exact Or.inl (String.toList_inj.1 (hfront.eq_of_length heq)).symm
  · obtain ⟨rest, hrest⟩ := h.dollar_isPrefix h' hlt
    refine Or.inr ⟨String.ofList rest, String.toList_inj.1 ?_⟩
    simpa using hrest.symm

/-- One of two names that enclose a generated class encloses the other one. -/
theorem Encloses.total (h : Encloses name generated) (h' : Encloses name' generated) :
    Encloses name name' ∨ Encloses name' name :=
  (Nat.le_total name.length name'.length).imp (h.of_length_le h') (h'.of_length_le h)

/-! ### Two modules -/

/-- **Names apart.** No class of either module has the name of a class of the other one, or a name
that continues it after a `$`. -/
def Source.Module.NamesApart (m m' : Module) : Prop :=
  ∀ c ∈ m.classes, ∀ d ∈ m'.classes, ¬ Encloses c.name d.name ∧ ¬ Encloses d.name c.name

instance (m m' : Source.Module) : Decidable (m.NamesApart m') := by
  unfold Source.Module.NamesApart
  infer_instance

/-- **A generated class belongs to a class of one module at most.** -/
theorem relatedClass?_of_namesApart (h : m.NamesApart m') (generated : String) :
    relatedClass? m generated = none ∨ relatedClass? m' generated = none := by
  cases hrelated : relatedClass? m generated with
  | none => exact Or.inl rfl
  | some name =>
    right
    rw [Option.eq_none_iff_forall_ne_some]
    intro name' hrelated'
    obtain ⟨⟨c, hc, rfl⟩, hencloses⟩ := relatedClass?_spec hrelated
    obtain ⟨⟨d, hd, rfl⟩, hencloses'⟩ := relatedClass?_spec hrelated'
    obtain ⟨hcd, hdc⟩ := h c hc d hd
    exact (hencloses.total hencloses').elim hcd hdc

/-- What belongs to no class of the module has no class file, whatever the tree is. -/
theorem attribute?_of_unrelated {g : GeneratedClass} (h : relatedClass? m g.name = none)
    (tree : DeclarationTree) : attribute? m tree g = none := by
  rw [attribute?, h]
  rfl

/-- A class file has the name and the code of the class that it was recorded for. -/
theorem attribute?_generated {g : GeneratedClass} {tree : DeclarationTree} {f : ClassFile}
    (h : attribute? m tree g = some f) : (⟨f.name, f.bytes⟩ : GeneratedClass) = g := by
  obtain ⟨related, -, h⟩ := Option.bind_eq_some_iff.1 h
  obtain ⟨b, -, h⟩ := Option.bind_eq_some_iff.1 h
  obtain rfl := Option.some.inj h
  rfl

/-- The class files of a list of generated classes are those of some of them, in their order. -/
theorem sublist_filterMap_attribute? (m : Source.Module) (tree : DeclarationTree)
    (gs : List GeneratedClass) :
    ((gs.filterMap (attribute? m tree)).map fun f => (⟨f.name, f.bytes⟩ : GeneratedClass)).Sublist
      gs := by
  induction gs with
  | nil => exact .slnil
  | cons g gs ih =>
    cases hg : attribute? m tree g with
    | none =>
      rw [List.filterMap_cons_none hg]
      exact ih.cons g
    | some f =>
      rw [List.filterMap_cons_some hg, List.map_cons, attribute?_generated hg]
      exact ih.cons_cons g

/-- **No generated class is claimed twice.** A generated class belongs to a class of one of the two
modules at most. So when a list of generated classes is attributed for both of them, with any trees
and reporters, the class files of either are those of some generated classes, and no generated class
is among those of both. -/
theorem attributeAll_namesApart (h : m.NamesApart m') (gs : List GeneratedClass)
    (tree tree' : DeclarationTree) (r r' : Reporter) :
    (∀ generated, relatedClass? m generated = none ∨ relatedClass? m' generated = none) ∧
      ∃ files files' : List ClassFile,
        attributeAll m tree gs r = ({ r with classFiles := r.classFiles ++ files }, files.length) ∧
        attributeAll m' tree' gs r' =
          ({ r' with classFiles := r'.classFiles ++ files' }, files'.length) ∧
        (files.map fun f => ⟨f.name, f.bytes⟩).Sublist gs ∧
        (files'.map fun f => ⟨f.name, f.bytes⟩).Sublist gs ∧
        (∀ f ∈ files, ∀ f' ∈ files', f.name ≠ f'.name) ∧
        files.length + files'.length ≤ gs.length := by
  have hone (generated : String) := relatedClass?_of_namesApart h generated
  have hfile (g : GeneratedClass) : attribute? m tree g = none ∨ attribute? m' tree' g = none :=
    (hone g.name).imp (attribute?_of_unrelated · tree) (attribute?_of_unrelated · tree')
  refine ⟨hone, _, _, attributeAll_eq m tree gs r, attributeAll_eq m' tree' gs r',
    sublist_filterMap_attribute? m tree gs, sublist_filterMap_attribute? m' tree' gs,
    fun f hf f' hf' hname => ?_, ?_⟩
  · -- the name alone decides which module a generated class belongs to
    obtain ⟨g, -, hg⟩ := List.mem_filterMap.1 hf
    obtain ⟨g', -, hg'⟩ := List.mem_filterMap.1 hf'
    have hsame : g.name = g'.name := by
      rw [← attribute?_generated hg, ← attribute?_generated hg']
      exact hname
    rcases hone g.name with hnone | hnone
    · cases (attribute?_of_unrelated hnone tree).symm.trans hg
    · cases (attribute?_of_unrelated (hsame ▸ hnone) tree').symm.trans hg'
  · rw [List.length_filterMap_eq_countP, List.length_filterMap_eq_countP,
      List.length_eq_countP_add_countP fun g => (attribute? m tree g).isSome]
    refine Nat.add_le_add_left (List.countP_mono_left fun g _ hsome => ?_) _
    rcases hfile g with hnone | hnone
    · simp [hnone]
    · rw [hnone] at hsome
      cases hsome

/-- A file of the same package as `Source.Module.outerInner`, with a class whose name goes on where
that of another one ends. -/
def Source.Module.outerTwo : Module where
  id := ⟨1⟩
  package := some ⟨"p", 8, 9⟩
  classes := [.plain "p.Outer2" {}]

/-- A tree with one type, which has this identity. -/
def DeclarationTree.ofIdentity (compoundName : List String) : DeclarationTree :=
  { types := [⟨default, [], some ⟨compoundName⟩⟩] }

/-- The class `p.Outer2` is not nested in `p.Outer`, although its name begins with this one. -/
theorem attributeAll_namesApart_outerTwo :
    Source.Module.outerInner.NamesApart .outerTwo ∧
      ∃ files files' : List ClassFile,
        attributeAll .outerInner (.ofIdentity ["p", "Outer"])
            [⟨"p.Outer$1", [1]⟩, ⟨"p.Outer2$1", [2]⟩] .accepting =
          ({ Reporter.accepting with classFiles := [] ++ files }, files.length) ∧
        attributeAll .outerTwo (.ofIdentity ["p", "Outer2"])
            [⟨"p.Outer$1", [1]⟩, ⟨"p.Outer2$1", [2]⟩] .accepting =
          ({ Reporter.accepting with classFiles := [] ++ files' }, files'.length) ∧
        (∀ f ∈ files, ∀ f' ∈ files', f.name ≠ f'.name) ∧
        files = [⟨"p.Outer$1", "p.Outer", [1]⟩] ∧ files' = [⟨"p.Outer2$1", "p.Outer2", [2]⟩] := by
  have hapart : Source.Module.outerInner.NamesApart .outerTwo := by decide
  obtain ⟨-, files, files', hfiles, hfiles', -, -, hne, -⟩ :=
    attributeAll_namesApart hapart [⟨"p.Outer$1", [1]⟩, ⟨"p.Outer2$1", [2]⟩]
      (.ofIdentity ["p", "Outer"]) (.ofIdentity ["p", "Outer2"]) .accepting .accepting
  refine ⟨hapart, files, files', hfiles, hfiles', hne, ?_, ?_⟩
  · have hrecorded := congrArg (·.1.classFiles) hfiles
    exact hrecorded.symm.trans (by decide +kernel)
  · have hrecorded := congrArg (·.1.classFiles) hfiles'
    exact hrecorded.symm.trans (by decide +kernel)

end HostBridge
