import HostBridge.Proofs.Binding.Search
import Mathlib.Data.List.Count

/-!
# By-products of compiling

Apart from the classes that are written in the file a module may list by-products, such as a class
for a closure. They have no declarations, and what is generated for them belongs to the class that
they are part of. One would expect that listing them makes no difference to an attribution: a
generated class is recorded for the innermost class *that is written in the file*.

This is so only as long as no by-product gets in the way. The search for the class of a generated
class goes over all that the module lists, so it may end at a by-product, and for this one there is
nothing to be recorded: the code of the closure is lost, `attributeAll_closure_lost`. The main
statement, `attributeAll_byProducts`, tells when: a generated class is recorded for the innermost
class that is written in the file exactly if this class is listed last among those that enclose the
generated one, or at least one of its name is.

In a package the search for the identity does not add to this, since no name is the proper end of
another one there, even if a by-product has a dot in its own part of the name: `inPackage_suffix`.
-/

namespace HostBridge

variable {m : Source.Module} {generated : String}

namespace Source

/-- The module without by-products. -/
def Module.withoutByProducts (m : Module) : Module := { m with classes := m.primaryClasses }

/-- **Names of by-products.** A by-product has the name of a class that is written in the file and
comes before it, then a `$` and anything else. -/
def Module.NamesByProducts (m : Module) : Prop :=
  ∀ i c, m.classes[i]? = some c → c.primary = false →
    ∃ d ∈ m.classes.take i, d.primary = true ∧ ∃ s, c.name = d.name ++ "$" ++ s

end Source

/-! ### Names -/

/-- In a package, what ends with a name in it is of this name, whatever its own part looks like. -/
theorem inPackage_suffix {p : Source.Package} (hp : m.package = some p) {s t : String}
    (ht : '.' ∉ t.toList) (h : (m.inPackage s).toList <:+ (m.inPackage t).toList) : s = t := by
  refine eq_of_isSuffix_inPackage hp (fun hs => ?_) ht h
  -- a dot in `s` would be one more than there are dots in all of the longer name
  have hcount := h.sublist.count_le '.'
  have hnone : t.toList.count '.' = 0 := List.count_eq_zero.2 ht
  have hsome : 0 < s.toList.count '.' := List.count_pos_iff.2 hs
  simp only [Source.Module.inPackage, hp, String.toList_append, List.count_append] at hcount
  omega

namespace Source.Module

/-- A class that is listed has the name of a class that is written in the file, perhaps with a `$`
and more behind it. -/
theorem NamesByProducts.exists_owner (hby : m.NamesByProducts) {c : Class} (hc : c ∈ m.classes) :
    ∃ d ∈ m.primaryClasses, Encloses d.name c.name := by
  cases hprimary : c.primary with
  | true => exact ⟨c, List.mem_filter.2 ⟨hc, hprimary⟩, Or.inl rfl⟩
  | false =>
    obtain ⟨i, hi⟩ := List.mem_iff_getElem?.1 hc
    obtain ⟨d, hd, hprimary', s, hname⟩ := hby i c hi hprimary
    exact ⟨d, List.mem_filter.2 ⟨List.mem_of_mem_take hd, hprimary'⟩, Or.inr ⟨s, hname⟩⟩

/-- Among the classes of a package only those of this name have a name that ends with that of a
listed class. -/
theorem FollowsNaming.eq_of_suffix (hm : m.FollowsNaming) (hby : m.NamesByProducts)
    (hpackage : m.package.isSome) {c d : Class} (hc : c ∈ m.classes) (hd : d ∈ m.primaryClasses)
    (h : c.name.toList <:+ d.name.toList) : c.name = d.name := by
  obtain ⟨p, hp⟩ := Option.isSome_iff_exists.1 hpackage
  obtain ⟨j, hj⟩ := List.mem_iff_getElem?.1 hd
  have hdname := hm.name_eq hj
  obtain ⟨owner, howner, hencloses⟩ := hby.exists_owner hc
  obtain ⟨i, hi⟩ := List.mem_iff_getElem?.1 howner
  have hownername := hm.name_eq hi
  -- the name of the listed class is in the package, since that of its owner is
  obtain ⟨s, hcname⟩ : ∃ s, c.name = m.inPackage s := by
    rcases hencloses with heq | ⟨rest, heq⟩
    · exact ⟨_, heq.trans hownername⟩
    · refine ⟨owner.simpleName ++ "$" ++ rest, ?_⟩
      rw [heq, hownername, inPackage_append, inPackage_append]
  rw [hcname, hdname] at h ⊢
  exact congrArg m.inPackage (inPackage_suffix hp (Dotted.not_mem_simpleName d.name) h)

end Source.Module

/-! ### Attribution -/

section Attribution

variable {o : Options} {t : DeclarationTree} {g : GeneratedClass}

/-- **In a package** a generated class is recorded for the last class that encloses it, and only if
a class of this name is written in the file. -/
theorem attribute?_inPackage_iff (ht : DeclarationTree.build o m = .ok t) (hm : m.FollowsNaming)
    (hpackage : m.package.isSome) (hby : m.NamesByProducts) {f : ClassFile} :
    attribute? m t.bind g = some f ↔ ∃ c, m.IsLastEnclosing g.name c ∧
      (∃ d ∈ m.primaryClasses, d.name = c.name) ∧ f = ⟨g.name, c.name, g.bytes⟩ := by
  rw [attribute?_eq_some_iff ht hm]
  constructor
  · rintro ⟨c, d, hlast, hd, rfl⟩
    obtain ⟨hmem, hends⟩ := Source.Module.firstEnding?_eq_some hd
    have heq := hm.eq_of_suffix hby hpackage hlast.mem hmem hends
    exact ⟨c, hlast, ⟨d, hmem, heq.symm⟩, by rw [heq]⟩
  · rintro ⟨c, hlast, ⟨d, hd, hname⟩, rfl⟩
    have hsuffix : c.name.toList <:+ d.name.toList := hname ▸ List.suffix_rfl
    -- the search may find another class, but one of the same name
    obtain ⟨e, he⟩ := m.exists_firstEnding? hd hsuffix
    obtain ⟨hmem, hends⟩ := Source.Module.firstEnding?_eq_some he
    have heq := hm.eq_of_suffix hby hpackage hlast.mem hmem hends
    exact ⟨c, e, hlast, he, by rw [heq]⟩

/-- **By-products and class files.** Each generated class is attributed on its own, so there is at
most one class file for it. There is none if no class of the file encloses the generated one. If
there is such a class, let `name` be the innermost one: a class file that belongs to it is recorded
exactly if the last of all listed classes that enclose the generated one has this name. Otherwise
the generated class is recorded for that last one, or not at all if it is a by-product. -/
theorem attributeAll_byProducts (ht : DeclarationTree.build o m = .ok t) (hm : m.FollowsNaming)
    (hpackage : m.package.isSome) (hby : m.NamesByProducts) (gs : List GeneratedClass)
    (r : Reporter) :
    ∃ file : GeneratedClass → Option ClassFile,
      attributeAll m t.bind gs r = ({ r with classFiles := r.classFiles ++ gs.filterMap file },
        (gs.filterMap file).length) ∧
      ∀ g, ((∀ c ∈ m.primaryClasses, ¬ Encloses c.name g.name) → file g = none) ∧
        (∀ name, m.withoutByProducts.IsInnermost g.name name →
          (file g = some ⟨g.name, name, g.bytes⟩ ↔
            ∃ c, m.IsLastEnclosing g.name c ∧ c.name = name)) ∧
        ∀ c, m.IsLastEnclosing g.name c →
          ((∃ d ∈ m.primaryClasses, d.name = c.name) →
            file g = some ⟨g.name, c.name, g.bytes⟩) ∧
          ((∀ d ∈ m.primaryClasses, d.name ≠ c.name) → file g = none) := by
  have hfile (g : GeneratedClass) {f : ClassFile} :=
    attribute?_inPackage_iff (g := g) ht hm hpackage hby (f := f)
  refine ⟨attribute? m t.bind, attributeAll_eq m t.bind gs r, fun g => ⟨fun hnone => ?_,
    fun name hinnermost => ?_, fun c hlast => ⟨fun hdeclared => ?_, fun hother => ?_⟩⟩⟩
  · rw [Option.eq_none_iff_forall_ne_some]
    intro f hf
    -- the class of the file that has the name of the last enclosing one would enclose it, too
    obtain ⟨c, hlast, ⟨d, hd, hname⟩, -⟩ := (hfile g).1 hf
    exact hnone d hd (hname ▸ hlast.encloses)
  · constructor
    · intro hf
      obtain ⟨c, hlast, -, heq⟩ := (hfile g).1 hf
      exact ⟨c, hlast, (ClassFile.mk.inj heq).2.1.symm⟩
    · rintro ⟨c, hlast, rfl⟩
      exact (hfile g).2 ⟨c, hlast, hinnermost.declared, rfl⟩
  · exact (hfile g).2 ⟨c, hlast, hdeclared, rfl⟩
  · rw [Option.eq_none_iff_forall_ne_some]
    intro f hf
    obtain ⟨c', hlast', ⟨d, hd, hname⟩, -⟩ := (hfile g).1 hf
    exact hother d hd (hname.trans (hlast'.name_eq hlast))

end Attribution

/-! ### A class with a closure -/

namespace Source

/-- A file with a class, for which a closure class has been generated that is listed as well. -/
def Module.withClosure : Module where
  id := ⟨0⟩
  package := some ⟨"p", 8, 9⟩
  classes :=
    [.plain "p.Foo" {}, ((Class.plain "p.Foo$_closure1" {}).nestedIn "p.Foo").asSecondary]

theorem Module.followsNaming_withClosure : withClosure.FollowsNaming where
  topLevel c hc houter := by
    obtain rfl := List.mem_singleton.1 hc
    exact ⟨"Foo", by decide, rfl⟩
  nested i c outer hc houter := by
    match i with
    | 0 =>
      obtain rfl := Option.some.inj hc
      cases houter
    | _ + 1 => cases hc

theorem Module.namesByProducts_withClosure : withClosure.NamesByProducts := by
  intro i c hc hprimary
  match i with
  | 0 =>
    obtain rfl := Option.some.inj hc
    cases hprimary
  | 1 =>
    obtain rfl := Option.some.inj hc
    exact ⟨.plain "p.Foo" {}, List.mem_cons_self, rfl, "_closure1", by decide⟩
  | _ + 2 => cases hc

/-- Whatever is generated inside the class has it as the innermost one that is written in the
file. -/
theorem Module.isInnermost_withClosure (h : Encloses "p.Foo" generated) :
    withClosure.withoutByProducts.IsInnermost generated "p.Foo" where
  declared := ⟨.plain "p.Foo" {}, List.mem_cons_self, rfl⟩
  encloses := h
  longest c hc _ := by
    obtain rfl := List.mem_singleton.1 hc
    exact Nat.le_refl _

end Source

/-- The class itself is recorded, since the closure does not enclose it. -/
theorem attributeAll_byProducts_withClosure :
    ∃ (t : DeclarationTree) (file : GeneratedClass → Option ClassFile),
      DeclarationTree.build {} .withClosure = .ok t ∧
      attributeAll .withClosure t.bind [⟨"p.Foo", [1]⟩] .accepting =
        ({ Reporter.accepting with classFiles := [] ++ [⟨"p.Foo", [1]⟩].filterMap file },
          ([⟨"p.Foo", [1]⟩].filterMap file).length) ∧
      file ⟨"p.Foo", [1]⟩ = some ⟨"p.Foo", "p.Foo", [1]⟩ := by
  obtain ⟨t, ht⟩ : ∃ t, DeclarationTree.build {} .withClosure = .ok t :=
    DeclarationTree.exists_of_isOk (by decide +kernel)
  obtain ⟨file, hall, hfile⟩ := attributeAll_byProducts ht
    Source.Module.followsNaming_withClosure rfl Source.Module.namesByProducts_withClosure
    [⟨"p.Foo", [1]⟩] .accepting
  refine ⟨t, file, ht, hall, ?_⟩
  obtain ⟨-, hinnermost, -⟩ := hfile ⟨"p.Foo", [1]⟩
  refine (hinnermost "p.Foo" (Source.Module.isInnermost_withClosure (Or.inl rfl))).2 ?_
  -- behind the class there is nothing but its closure
  refine ⟨.plain "p.Foo" {}, ⟨Or.inl rfl, [], _, rfl, fun d hd => ?_⟩, rfl⟩
  obtain rfl := List.mem_singleton.1 hd
  rw [← belongsTo_iff]
  decide

/-- **A closure that is lost.** The innermost class that is written in the file is there, with an
identity, but nothing is recorded for the closure, since its own entry is found first. -/
theorem attributeAll_closure_lost :
    Source.Module.withClosure.FollowsNaming ∧ Source.Module.withClosure.NamesByProducts ∧
      Source.Module.withClosure.withoutByProducts.IsInnermost "p.Foo$_closure1" "p.Foo" ∧
      ∃ t, DeclarationTree.build {} .withClosure = .ok t ∧
        t.bind.bindings.map (·.qualifiedName) = ["p.Foo"] ∧
        attributeAll .withClosure t.bind [⟨"p.Foo$_closure1", [2]⟩] .accepting =
          (.accepting, 0) := by
  have hnaming := Source.Module.followsNaming_withClosure
  refine ⟨hnaming, Source.Module.namesByProducts_withClosure,
    Source.Module.isInnermost_withClosure (Or.inr ⟨"_closure1", by decide⟩), ?_⟩
  obtain ⟨t, ht⟩ : ∃ t, DeclarationTree.build {} .withClosure = .ok t :=
    DeclarationTree.exists_of_isOk (by decide +kernel)
  refine ⟨t, ht, (DeclarationTree.names_of_bindings ht hnaming).trans (by decide +kernel), ?_⟩
  -- the last class that encloses the closure is the closure, which no name ends with
  have hrelated :
      relatedClass? .withClosure "p.Foo$_closure1" = some "p.Foo$_closure1" := by decide
  have hnone : Source.Module.withClosure.firstEnding? "p.Foo$_closure1" = none := by
    decide +kernel
  rw [attributeAll, attribute?_eq ht hnaming, hrelated, Option.bind_some, hnone]
  rfl

end HostBridge
