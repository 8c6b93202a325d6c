import HostBridge.Binding.Attribution
import HostBridge.Proofs.Binding.Naming

/-!
# Generated classes are attributed to the innermost class

Attributing a generated class takes two searches that look loose. The first one takes the last class
of the module whose name the generated one continues, `relatedClass?`; the second one takes the
first identity of the tree whose qualified name ends with that name, `DeclarationTree.findBinding?`.
This file shows that for a module named as a compiler names it they lead to the innermost class:
`attributeAll_exact`.

* The names that a generated name continues are prefixes of it, so the shorter of two of them
  continues in the longer one. Where outer classes are listed first, the last one is therefore the
  longest, `relatedClass?_longest`.
* The identities are named as the classes are, and all of them are in the same package. A name that
  ends with another one of the same package has the same simple name, so it is the same name,
  `eq_of_isSuffix_inPackage`.

The package matters for the second point: without one, the name of a class may well be the end of
the name of another.
-/

namespace HostBridge

variable {m : Source.Module} {name generated : String}

/-! ### Enclosing classes -/

/-- A generated class is the class of this name, or was generated for something inside it. -/
def Encloses (name generated : String) : Prop :=
  generated = name ∨ ∃ rest, generated = name ++ "$" ++ rest

theorem belongsTo_iff : belongsTo generated name = true ↔ Encloses name generated := by
  rw [belongsTo, Bool.or_eq_true, beq_iff_eq, Encloses]
  refine or_congr_right ?_
  constructor
  · intro h
    split at h
    · next rest hrest =>
      refine ⟨String.ofList rest, String.toList_inj.1 ?_⟩
      rw [Text.afterPrefix?_eq_some_iff] at hrest
      simp [hrest]
    · exact absurd h Bool.false_ne_true
  · rintro ⟨rest, rfl⟩
    have hfront :
        Text.afterPrefix? name.toList (name ++ "$" ++ rest).toList = some ('$' :: rest.toList) := by
      rw [Text.afterPrefix?_eq_some_iff]
      simp
    rw [hfront]
    rfl

/-- An enclosing name is a prefix. -/
theorem Encloses.isPrefix (h : Encloses name generated) : name.toList <+: generated.toList := by
  rcases h with rfl | ⟨rest, rfl⟩
  · exact List.prefix_rfl
  · exact ⟨'$' :: rest.toList, by simp⟩

/-- Of two enclosing names the shorter one continues in the longer one. -/
theorem Encloses.dollar_isPrefix {name' : String} (h : Encloses name generated)
    (h' : Encloses name' generated) (hlt : name.length < name'.length) :
    (name ++ "$").toList <+: name'.toList := by
  rw [← String.length_toList, ← String.length_toList] at hlt
  have hlen : (name ++ "$").toList.length ≤ name'.toList.length := by
    simp only [String.toList_append, List.length_append]
    exact hlt
  refine List.prefix_of_prefix_length_le ?_ h'.isPrefix hlen
  rcases h with rfl | ⟨rest, rfl⟩
  · -- the generated name would be longer than itself
    have := h'.isPrefix.length_le
    omega
  · exact ⟨rest.toList, by simp⟩

/-- **The innermost class.** This is the name of a class of the module that encloses the generated
one, and no other such name is longer. -/
structure Source.Module.IsInnermost (m : Module) (generated name : String) : Prop where
  declared : ∃ c ∈ m.classes, c.name = name
  encloses : Encloses name generated
  longest : ∀ c ∈ m.classes, Encloses c.name generated → c.name.length ≤ name.length

/-- Where the name of a class continues that of another one, the other one is listed before it. -/
def Source.Module.ListsOuterFirst (m : Module) : Prop :=
  ∀ (i j : Nat) (c d : Class), m.classes[i]? = some c → m.classes[j]? = some d →
    (c.name ++ "$").toList <+: d.name.toList → i < j

/-! ### The class of a generated class -/

theorem relatedClass?_spec (h : relatedClass? m generated = some name) :
    (∃ c ∈ m.classes, c.name = name) ∧ Encloses name generated := by
  rw [relatedClass?] at h
  obtain ⟨hmem, hbelongs⟩ := List.mem_filter.1 (List.mem_of_getLast? h)
  exact ⟨List.mem_map.1 hmem, belongsTo_iff.1 hbelongs⟩

/-- With outer classes listed first, the last enclosing name is the longest one. -/
theorem relatedClass?_longest (hlist : m.ListsOuterFirst)
    (h : relatedClass? m generated = some name)
    {c : Source.Class} (hc : c ∈ m.classes) (hencloses : Encloses c.name generated) :
    c.name.length ≤ name.length := by
  obtain ⟨-, hname⟩ := relatedClass?_spec h
  rw [relatedClass?] at h
  have hpairwise :
      (m.classes.map (·.name)).Pairwise fun a b => ¬ (b ++ "$").toList <+: a.toList := by
    rw [List.pairwise_map, List.pairwise_iff_getElem]
    intro i j hi hj hij hcontinues
    have := hlist j i _ _ (List.getElem?_eq_getElem hj) (List.getElem?_eq_getElem hi) hcontinues
    omega
  -- the order passes on to the names that enclose the generated one
  obtain ⟨init, hinit⟩ := List.getLast?_eq_some_iff.1 h
  have hsorted := hinit ▸ hpairwise.filter (belongsTo generated)
  have hmem : c.name ∈ init ++ [name] :=
    hinit ▸ List.mem_filter.2 ⟨List.mem_map_of_mem hc, belongsTo_iff.2 hencloses⟩
  by_contra hlt
  rcases List.mem_append.1 hmem with hbefore | hlast
  · -- a longer name before the last one would be listed before an outer class
    have hnot := (List.pairwise_append.1 hsorted).2.2 c.name hbefore name List.mem_cons_self
    exact hnot (hname.dollar_isPrefix hencloses (by omega))
  · rw [List.mem_singleton.1 hlast] at hlt
    exact hlt (Nat.le_refl _)

theorem relatedClass?_eq_none (h : relatedClass? m generated = none) :
    ∀ c ∈ m.classes, ¬ Encloses c.name generated := by
  intro c hc hencloses
  rw [relatedClass?, List.getLast?_eq_none_iff, List.filter_eq_nil_iff] at h
  exact h c.name (List.mem_map_of_mem hc) (belongsTo_iff.2 hencloses)

/-! ### The identity of a class -/

/-- In a package, no name is a proper end of another one. -/
theorem eq_of_isSuffix_inPackage {p : Source.Package} (hp : m.package = some p) {s t : String}
    (hs : '.' ∉ s.toList) (ht : '.' ∉ t.toList)
    (h : (m.inPackage s).toList <:+ (m.inPackage t).toList) : s = t := by
  -- whatever stands in front, the simple name is what follows the last dot
  obtain ⟨front, hfront⟩ := h
  have hname :
      m.inPackage t = String.ofList front ++ Dotted.withoutTrailingDots p.name ++ "." ++ s := by
    apply String.toList_inj.1
    rw [← hfront, Source.Module.inPackage, hp]
    simp
  calc s = Dotted.simpleName
        (String.ofList front ++ Dotted.withoutTrailingDots p.name ++ "." ++ s) :=
        (Dotted.simpleName_dot_append _ hs).symm
    _ = Dotted.simpleName (m.inPackage t) := by rw [hname]
    _ = t := m.simpleName_inPackage ht

namespace DeclarationTree

variable {o : Options} {t : DeclarationTree}

/-- **The search for the name of a class finds the identity of that name**, although it would be
content with any name that ends with it. -/
theorem findBinding?_of_followsNaming (ht : build o m = .ok t) (hm : m.FollowsNaming)
    (hpackage : m.package.isSome) {c : Source.Class} (hc : c ∈ m.primaryClasses) :
    ∃ b, t.bind.findBinding? c.name = some b ∧ b.qualifiedName = c.name := by
  obtain ⟨p, hp⟩ := Option.isSome_iff_exists.1 hpackage
  obtain ⟨content, binding, -, htypes, hnames⟩ := bind_of_followsNaming ht hm
  obtain ⟨i, hi⟩ := List.mem_iff_getElem?.1 hc
  have hmem : binding i ∈ t.bind.bindings :=
    (mem_bindings_forest htypes).2 ⟨i, (List.getElem?_eq_some_iff.1 hi).1, rfl⟩
  rw [findBinding?]
  cases hfind : t.bind.bindings.find? fun b => c.name.toList.isSuffixOf b.qualifiedName.toList with
  | none =>
    -- the identity of the class itself would have been found
    have hnot := List.find?_eq_none.1 hfind _ hmem
    rw [hnames i c hi, List.isSuffixOf_iff_suffix] at hnot
    exact absurd List.suffix_rfl hnot
  | some b =>
    -- an identity that ends with the name of the class is that of a class of the same package
    refine ⟨b, rfl, ?_⟩
    obtain ⟨j, hj, rfl⟩ := (mem_bindings_forest htypes).1 (List.mem_of_find?_eq_some hfind)
    have hd := List.getElem?_eq_getElem hj
    have hfound := List.find?_some hfind
    have hsuffix := List.isSuffixOf_iff_suffix.1 hfound
    rw [hnames j _ hd] at hsuffix ⊢
    rw [hm.name_eq hi, hm.name_eq hd] at hsuffix ⊢
    have heq := eq_of_isSuffix_inPackage hp (Dotted.not_mem_simpleName _)
      (Dotted.not_mem_simpleName _) hsuffix
    exact (congrArg m.inPackage heq).symm

end DeclarationTree

/-! ### All generated classes -/

/-- What attributing generated classes comes to. -/
theorem attributeAll_eq (m : Source.Module) (tree : DeclarationTree) (gs : List GeneratedClass)
    (r : Reporter) :
    attributeAll m tree gs r =
      ({ r with classFiles := r.classFiles ++ gs.filterMap (attribute? m tree) },
        (gs.filterMap (attribute? m tree)).length) := by
  induction gs generalizing r with
  | nil => simp [attributeAll]
  | cons g gs ih =>
    rw [attributeAll]
    cases hg : attribute? m tree g with
    | none => rw [List.filterMap_cons_none hg, ← ih r]
    | some f =>
      dsimp only
      rw [ih, List.filterMap_cons_some hg, List.length_cons, Reporter.recordClassFile,
        List.append_assoc, List.singleton_append]

/-- **Exact attribution.** The class files of generated classes in their order: one for each
generated class that has an enclosing class, which belongs to the innermost one, and none for the
others. -/
inductive Source.Module.Attributes (m : Module) : List GeneratedClass → List ClassFile → Prop
  | nil : m.Attributes [] []
  | skip {g gs fs} (h : ∀ c ∈ m.classes, ¬ Encloses c.name g.name) (rest : m.Attributes gs fs) :
      m.Attributes (g :: gs) fs
  | record {g gs fs name} (h : m.IsInnermost g.name name) (rest : m.Attributes gs fs) :
      m.Attributes (g :: gs) (⟨g.name, name, g.bytes⟩ :: fs)

/-- **Generated classes are attributed exactly.** -/
theorem attributeAll_exact {o : Options} {t : DeclarationTree}
    (ht : DeclarationTree.build o m = .ok t) (hm : m.FollowsNaming) (hpackage : m.package.isSome)
    (hprimary : ∀ c ∈ m.classes, c.primary = true)
    (hlist : m.ListsOuterFirst) (gs : List GeneratedClass) (r : Reporter) :
    ∃ files, attributeAll m t.bind gs r =
        ({ r with classFiles := r.classFiles ++ files }, files.length) ∧
      m.Attributes gs files := by
  refine ⟨_, attributeAll_eq m t.bind gs r, ?_⟩
  -- each generated class is attributed on its own
  induction gs with
  | nil => exact .nil
  | cons g gs ih =>
    cases hrelated : relatedClass? m g.name with
    | none =>
      have hnone : attribute? m t.bind g = none := by rw [attribute?, hrelated]; rfl
      rw [List.filterMap_cons_none hnone]
      exact .skip (relatedClass?_eq_none hrelated) ih
    | some name =>
      obtain ⟨⟨c, hc, rfl⟩, hencloses⟩ := relatedClass?_spec hrelated
      have hmem : c ∈ m.primaryClasses := List.mem_filter.2 ⟨hc, hprimary c hc⟩
      obtain ⟨b, hb, hname⟩ := DeclarationTree.findBinding?_of_followsNaming ht hm hpackage hmem
      have hsome : attribute? m t.bind g = some ⟨g.name, c.name, g.bytes⟩ := by
        rw [attribute?, hrelated, ← hname]
        simp [hname, hb]
      rw [List.filterMap_cons_some hsome]
      exact .record ⟨⟨c, hc, rfl⟩, hencloses, fun d hd =>
        relatedClass?_longest hlist hrelated hd⟩ ih

/-- A closure inside the nested class belongs to the nested class, not to the outer one. -/
theorem attributeAll_exact_outerInner :
    ∃ t files, DeclarationTree.build {} .outerInner = .ok t ∧
      attributeAll .outerInner t.bind
          [⟨"p.Outer", [1]⟩, ⟨"q.Other", [2]⟩, ⟨"p.Outer$Inner$1", [3]⟩] .accepting =
        ({ Reporter.accepting with classFiles := [] ++ files }, files.length) ∧
      Source.Module.outerInner.Attributes
        [⟨"p.Outer", [1]⟩, ⟨"q.Other", [2]⟩, ⟨"p.Outer$Inner$1", [3]⟩] files := by
  have hlist : Source.Module.outerInner.ListsOuterFirst := by
    intro i j c d hc hd hcontinues
    match i, j with
    | 0, 1 => exact Nat.zero_lt_one
    | 0, 0 | 1, 0 | 1, 1 =>
      obtain rfl := Option.some.inj hc
      obtain rfl := Option.some.inj hd
      exact absurd hcontinues (by decide)
    | _ + 2, _ => cases hc
    | _, _ + 2 => cases hd
  have hbuild : (DeclarationTree.build {} .outerInner).isOk = true := by decide +kernel
  cases ht : DeclarationTree.build {} .outerInner with
  | error fault =>
    rw [ht] at hbuild
    cases hbuild
  | ok t =>
    obtain ⟨files, hfiles, hexact⟩ := attributeAll_exact ht
      Source.Module.followsNaming_outerInner rfl (by decide) hlist _ _
    exact ⟨t, files, rfl, hfiles, hexact⟩

end HostBridge
