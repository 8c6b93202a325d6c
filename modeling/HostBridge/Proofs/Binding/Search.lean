import HostBridge.Proofs.Binding.Attribution

/-!
# What the searches of an attribution find

Attributing a generated class takes two searches, and either of them is content with more than it
should be. This file says what they find if nothing is known about the order in which the classes of
the module are listed, and if the module may list by-products of compiling it.

* The class of a generated class is the last one in the list of the module that encloses it, be it
  written in the file or not: `relatedClass?_eq_some_iff`.
* The identities of a bound tree are named as the classes are that are written in the file, in the
  order in which their types are walked: `DeclarationTree.names_of_bindings`. So the identity that
  is found for a name is that of the first class on this walk whose name ends with it, which is
  `Source.Module.firstEnding?`.

`attribute?_eq` puts the two together, and `attribute?_eq_some_iff` reads a class file back. They
speak of the classes of the module alone: neither trees nor identities occur in what they say is
recorded.
-/

namespace HostBridge

variable {m : Source.Module} {name generated : String}

/-! ### The last enclosing class -/

/-- **The last enclosing class.** It encloses the generated class, and no class that is listed
behind it does. -/
structure Source.Module.IsLastEnclosing (m : Module) (generated : String) (c : Class) : Prop where
  encloses : Encloses c.name generated
  last : ∃ before behind, m.classes = before ++ c :: behind ∧
    ∀ d ∈ behind, ¬ Encloses d.name generated

/-- **The class of a generated class** is the last one that encloses it. -/
theorem relatedClass?_eq_some_iff :
    relatedClass? m generated = some name ↔ ∃ c, m.IsLastEnclosing generated c ∧ c.name = name := by
  rw [relatedClass?, List.filter_map, List.getLast?_map, Option.map_eq_some_iff]
  refine exists_congr fun c => and_congr_left fun _ => ?_
  rw [List.getLast?_eq_some_iff]
  constructor
  · -- behind the last class that the filter keeps it keeps none
    rintro ⟨kept, hkept⟩
    obtain ⟨front, rest, hclasses, -, hrest⟩ := List.filter_eq_append_iff.1 hkept
    obtain ⟨between, behind, rfl, -, hc, hbehind⟩ := List.filter_eq_cons_iff.1 hrest
    refine ⟨belongsTo_iff.1 hc, front ++ between, behind, ?_, fun d hd hencloses => ?_⟩
    · rw [hclasses, List.append_assoc]
    · exact List.filter_eq_nil_iff.1 hbehind d hd (belongsTo_iff.2 hencloses)
  · rintro ⟨hencloses, before, behind, hclasses, hbehind⟩
    have hc : (belongsTo generated ∘ fun d : Source.Class => d.name) c = true :=
      belongsTo_iff.2 hencloses
    have hnone : behind.filter (belongsTo generated ∘ (·.name)) = [] :=
      List.filter_eq_nil_iff.2 fun d hd hbelongs => hbehind d hd (belongsTo_iff.1 hbelongs)
    refine ⟨before.filter (belongsTo generated ∘ (·.name)), ?_⟩
    rw [hclasses, List.filter_append, List.filter_cons_of_pos hc, hnone]

theorem Source.Module.IsLastEnclosing.mem {c : Source.Class} (h : m.IsLastEnclosing generated c) :
    c ∈ m.classes := by
  obtain ⟨before, behind, hclasses, -⟩ := h.last
  rw [hclasses]
  exact List.mem_append_right before List.mem_cons_self

/-- Whatever is listed twice, the name of the last enclosing class is determined. -/
theorem Source.Module.IsLastEnclosing.name_eq {c d : Source.Class}
    (hc : m.IsLastEnclosing generated c) (hd : m.IsLastEnclosing generated d) :
    c.name = d.name := by
  have hrelated := relatedClass?_eq_some_iff.2 ⟨c, hc, rfl⟩
  rw [relatedClass?_eq_some_iff.2 ⟨d, hd, rfl⟩] at hrelated
  exact (Option.some.inj hrelated).symm

/-! ### The walk over the declared classes -/

namespace Source.Module

/-- The classes that are written in the file, in the order in which their types are walked. -/
def walkedClasses (m : Module) : List Class :=
  ((Nesting.ofClasses m.primaryClasses).walk m.primaryClasses.length none).filterMap
    fun i => m.primaryClasses[i]?

theorem mem_walkedClasses {c : Class} : c ∈ m.walkedClasses ↔ c ∈ m.primaryClasses := by
  rw [walkedClasses, List.mem_filterMap, List.mem_iff_getElem?]
  refine exists_congr fun i => and_iff_right_of_imp fun hc => ?_
  exact Nesting.mem_walk_none (List.getElem?_eq_some_iff.1 hc).1

/-- **The first class on the walk whose name ends with the given one.** -/
def firstEnding? (m : Module) (name : String) : Option Class :=
  m.walkedClasses.find? fun c => name.toList.isSuffixOf c.name.toList

theorem firstEnding?_eq_some {c : Class} (h : m.firstEnding? name = some c) :
    c ∈ m.primaryClasses ∧ name.toList <:+ c.name.toList := by
  have hfound := List.find?_some h
  exact ⟨mem_walkedClasses.1 (List.mem_of_find?_eq_some h), List.isSuffixOf_iff_suffix.1 hfound⟩

/-- If any class has a name that ends with the given one, there is a first one. -/
theorem exists_firstEnding? {c : Class} (hc : c ∈ m.primaryClasses)
    (h : name.toList <:+ c.name.toList) : ∃ d, m.firstEnding? name = some d := by
  apply Option.isSome_iff_exists.1
  exact List.find?_isSome.2 ⟨c, mem_walkedClasses.2 hc, List.isSuffixOf_iff_suffix.2 h⟩

end Source.Module

/-! ### What is recorded -/

section Recorded

variable {o : Options} {t : DeclarationTree}

/-- **The identities of a tree** are named as the classes on the walk. -/
theorem DeclarationTree.names_of_bindings (ht : build o m = .ok t) (hm : m.FollowsNaming) :
    t.bind.bindings.map (·.qualifiedName) = m.walkedClasses.map (·.name) := by
  obtain ⟨content, binding, -, htypes, hnames⟩ := bind_of_followsNaming ht hm
  -- the types on the walk are the declarations of the places, which have the identities
  rw [bindings, walk, htypes, Nesting.walkAll_forest, List.filterMap_map, List.map_filterMap,
    Source.Module.walkedClasses, List.map_filterMap]
  refine List.filterMap_congr fun i hi => ?_
  have hlt := (Nesting.climbs_of_mem_walk none i hi).1
  have hc := List.getElem?_eq_getElem hlt
  rw [hc, Option.map_some, ← hnames i _ hc]
  rfl

/-- The identity that is found is named as the first class with such a name. -/
theorem DeclarationTree.findBinding?_name (ht : build o m = .ok t) (hm : m.FollowsNaming)
    (name : String) :
    (t.bind.findBinding? name).map (·.qualifiedName) = (m.firstEnding? name).map (·.name) := by
  have hfind := congrArg (List.find? fun s => name.toList.isSuffixOf s.toList)
    (names_of_bindings ht hm)
  rw [List.find?_map, List.find?_map] at hfind
  exact hfind

/-- **What is recorded for a generated class**: a class file for the first class on the walk whose
name ends with that of the last enclosing class. -/
theorem attribute?_eq (ht : DeclarationTree.build o m = .ok t) (hm : m.FollowsNaming)
    (g : GeneratedClass) :
    attribute? m t.bind g = (relatedClass? m g.name).bind fun name =>
      (m.firstEnding? name).map fun c => ⟨g.name, c.name, g.bytes⟩ := by
  rw [attribute?]
  refine congrArg ((relatedClass? m g.name).bind ·) (funext fun name => ?_)
  -- a class file has no more of the identity than its name
  have hname := congrArg (Option.map fun s => (⟨g.name, s, g.bytes⟩ : ClassFile))
    (DeclarationTree.findBinding?_name ht hm name)
  rw [Option.map_map, Option.map_map] at hname
  cases hb : t.bind.findBinding? name with
  | none =>
    rw [hb] at hname
    exact hname
  | some b =>
    rw [hb] at hname
    exact hname

/-- A class file tells what the two searches found. -/
theorem attribute?_eq_some_iff (ht : DeclarationTree.build o m = .ok t) (hm : m.FollowsNaming)
    {g : GeneratedClass} {f : ClassFile} :
    attribute? m t.bind g = some f ↔ ∃ c d, m.IsLastEnclosing g.name c ∧
      m.firstEnding? c.name = some d ∧ f = ⟨g.name, d.name, g.bytes⟩ := by
  rw [attribute?_eq ht hm, Option.bind_eq_some_iff]
  constructor
  · rintro ⟨name, hrelated, hfile⟩
    obtain ⟨c, hlast, rfl⟩ := relatedClass?_eq_some_iff.1 hrelated
    obtain ⟨d, hd, rfl⟩ := Option.map_eq_some_iff.1 hfile
    exact ⟨c, d, hlast, hd, rfl⟩
  · rintro ⟨c, d, hlast, hd, rfl⟩
    refine ⟨c.name, relatedClass?_eq_some_iff.2 ⟨c, hlast, rfl⟩, ?_⟩
    rw [hd, Option.map_some]

end Recorded

end HostBridge
