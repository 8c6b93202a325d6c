import HostBridge.Proofs.Binding.Search
import HostBridge.Proofs.Declaration.Completeness

/-!
# Class files in the default package

In a package, the search for an identity cannot go wrong: all names there begin alike, and none is
the proper end of another one. Without a package nothing of this kind holds. The name `B` is the end
of `AB`, and `C$D` begins `C$D$E`, so a class of an ordinary file may lose its code to another one,
`attributeAll_otherType`.

Either search can be the cause. If a class is listed behind the wanted one and begins its name, then
the first search ends there. If an earlier one on the walk has a name that ends with the name that
was found, then the second search ends there. Nothing else happens, as
`attributeAll_defaultPackage` tells: these two conditions decide for each class whether its class
file is its own.

A module without a package whose nested classes have no dot in their names follows the naming of a
compiler, `NamesInDefaultPackage.followsNaming`, so what the searches find is known. A dot in the
name of a nested class is a different matter, since its declaration is named by what follows the
dot.
-/

namespace HostBridge

variable {m : Source.Module}

namespace Source

/-- **Names in the default package.** Top-level classes have simple names, and nested ones continue
the name of the enclosing class. -/
structure Module.NamesInDefaultPackage (m : Module) : Prop where
  package : m.package = none
  distinct : (m.primaryClasses.map (·.name)).Nodup
  topLevel : ∀ c ∈ m.primaryClasses, c.outer = none → '.' ∉ c.name.toList ∧ '$' ∉ c.name.toList
  nested : ∀ c ∈ m.primaryClasses, ∀ outer, c.outer = some outer → ∃ s, c.name = outer ++ "$" ++ s

namespace Module.NamesInDefaultPackage

/-- A class is known by its name. -/
theorem eq_of_name (hm : m.NamesInDefaultPackage) {c d : Class} (hc : c ∈ m.primaryClasses)
    (hd : d ∈ m.primaryClasses) (h : c.name = d.name) : c = d :=
  List.inj_on_of_nodup_map hm.distinct hc hd h

/-- If the module can be built, then enclosing classes come first, so that the module is named as a
compiler would name it. -/
theorem followsNaming (hm : m.NamesInDefaultPackage)
    (hdots : ∀ c ∈ m.primaryClasses, '.' ∉ c.name.toList) {o : Options} {t : DeclarationTree}
    (ht : DeclarationTree.build o m = .ok t) : m.FollowsNaming where
  topLevel c hc _ := by
    refine ⟨c.name, hdots c hc, ?_⟩
    rw [inPackage, hm.package]
  nested i c outer hc houter := by
    have hmem := List.mem_of_getElem? hc
    obtain ⟨s, hname⟩ := hm.nested c hmem outer houter
    refine ⟨(DeclarationTree.exists_build_iff.1 ⟨t, ht⟩).2 i c outer hc houter, s, ?_, hname⟩
    -- a dot in the own part of the name would be one in the name
    intro hdot
    refine hdots c hmem ?_
    rw [hname, String.toList_append]
    exact List.mem_append_right _ hdot

end Module.NamesInDefaultPackage

end Source

/-! ### Attribution -/

section Attribution

variable {o : Options} {t : DeclarationTree} {g : GeneratedClass}

/-- **Own class files.** What is recorded belongs to the class `c` exactly if `c` is the first one
on the walk whose name ends with that of the last enclosing class. -/
theorem attribute?_own_iff (ht : DeclarationTree.build o m = .ok t) (hm : m.FollowsNaming)
    (hdistinct : (m.primaryClasses.map (·.name)).Nodup) {c : Source.Class}
    (hc : c ∈ m.primaryClasses) :
    attribute? m t.bind g = some ⟨g.name, c.name, g.bytes⟩ ↔
      ∃ last, m.IsLastEnclosing g.name last ∧ m.firstEnding? last.name = some c := by
  rw [attribute?_eq_some_iff ht hm]
  constructor
  · rintro ⟨last, d, hlast, hd, hfile⟩
    -- the class that was found has the name of `c`, and names are distinct
    have hname : c.name = d.name := (ClassFile.mk.inj hfile).2.1
    have hmem := (Source.Module.firstEnding?_eq_some hd).1
    obtain rfl := List.inj_on_of_nodup_map hdistinct hc hmem hname
    exact ⟨last, hlast, hd⟩
  · rintro ⟨last, hlast, hd⟩
    exact ⟨last, c, hlast, hd, rfl⟩

/-- If nothing behind the class encloses the generated one, something is recorded. -/
theorem exists_attribute? (ht : DeclarationTree.build o m = .ok t) (hm : m.FollowsNaming)
    {c : Source.Class} (hc : c ∈ m.primaryClasses) (hlast : m.IsLastEnclosing g.name c) :
    ∃ d, m.firstEnding? c.name = some d ∧
      attribute? m t.bind g = some ⟨g.name, d.name, g.bytes⟩ := by
  obtain ⟨d, hd⟩ := m.exists_firstEnding? hc List.suffix_rfl
  exact ⟨d, hd, (attribute?_eq_some_iff ht hm).2 ⟨c, d, hlast, hd, rfl⟩⟩

/-- **Class files in the default package.** Let a generated class be one of the module itself. Its
class file belongs to this class exactly if the class is the first one on the walk whose name ends
with that of the last class that encloses it. This last class is the class itself unless one that is
listed behind it begins its name; then there is a class file in any case, which belongs to the first
class on the walk whose name ends with its name, so to the class itself if no other name does. -/
theorem attributeAll_defaultPackage (ht : DeclarationTree.build o m = .ok t)
    (hm : m.NamesInDefaultPackage) (hdots : ∀ c ∈ m.primaryClasses, '.' ∉ c.name.toList)
    (gs : List GeneratedClass) (r : Reporter) :
    ∃ file : GeneratedClass → Option ClassFile,
      attributeAll m t.bind gs r = ({ r with classFiles := r.classFiles ++ gs.filterMap file },
        (gs.filterMap file).length) ∧
      ∀ g, ∀ c ∈ m.primaryClasses, g.name = c.name →
        (file g = some ⟨g.name, c.name, g.bytes⟩ ↔
          ∃ last, m.IsLastEnclosing g.name last ∧ m.firstEnding? last.name = some c) ∧
        (m.IsLastEnclosing g.name c →
          (∃ d, m.firstEnding? c.name = some d ∧ file g = some ⟨g.name, d.name, g.bytes⟩) ∧
          ((∀ d ∈ m.primaryClasses, c.name.toList <:+ d.name.toList → d = c) →
            file g = some ⟨g.name, c.name, g.bytes⟩)) := by
  have hnaming := hm.followsNaming hdots ht
  refine ⟨attribute? m t.bind, attributeAll_eq m t.bind gs r, fun g c hc _ => ⟨?_, fun hlast => ?_⟩⟩
  · exact attribute?_own_iff ht hnaming hm.distinct hc
  · obtain ⟨d, hd, hfile⟩ := exists_attribute? ht hnaming hc hlast
    refine ⟨⟨d, hd, hfile⟩, fun honly => ?_⟩
    obtain ⟨hmem, hends⟩ := Source.Module.firstEnding?_eq_some hd
    rw [hfile, honly d hmem hends]

end Attribution

/-! ### Names that end with another one -/

namespace Source

/-- A file with two classes, the name of one of which ends with that of the other. -/
def Module.shortFirst : Module where
  id := ⟨0⟩
  classes := [.plain "B" {}, .plain "AB" {}]

theorem Module.namesInDefaultPackage_shortFirst : shortFirst.NamesInDefaultPackage where
  package := rfl
  distinct := by decide
  topLevel := by decide
  nested := by
    intro c hc outer houter
    rcases List.mem_cons.1 hc with rfl | hc
    · cases houter
    · obtain rfl := List.mem_singleton.1 hc
      cases houter

/-- A file with the two classes in the other order, and a class with nested ones. The one that is
nested deeper is listed first, and one has a dot in its own part of the name. -/
def Module.entangled : Module where
  id := ⟨0⟩
  classes := [.plain "AB" {}, .plain "B" {}, .plain "C" {}, (Class.plain "C$D$E" {}).nestedIn "C",
    (Class.plain "C$D" {}).nestedIn "C", (Class.plain "C$x.y" {}).nestedIn "C"]

theorem Module.namesInDefaultPackage_entangled : entangled.NamesInDefaultPackage where
  package := rfl
  distinct := by decide
  topLevel := by decide
  nested := by
    have hnested : ∀ c ∈ entangled.primaryClasses, c.outer ∈ [none, some "C"] ∧
        (c.outer = some "C" → c.name ∈ ["C$D$E", "C$D", "C$x.y"]) := by decide
    intro c hc outer houter
    obtain ⟨houter', hname⟩ := hnested c hc
    rw [houter] at houter'
    obtain rfl : outer = "C" := by simpa using houter'
    have hname := hname houter
    simp only [List.mem_cons, List.not_mem_nil, or_false] at hname
    rcases hname with hname | hname | hname
    · exact ⟨"D$E", hname.trans (by decide)⟩
    · exact ⟨"D", hname.trans (by decide)⟩
    · exact ⟨"x.y", hname.trans (by decide)⟩

end Source

/-- With the shorter name first, its class file is its own. -/
theorem attributeAll_defaultPackage_shortFirst :
    ∃ (t : DeclarationTree) (file : GeneratedClass → Option ClassFile),
      DeclarationTree.build {} .shortFirst = .ok t ∧
      attributeAll .shortFirst t.bind [⟨"B", [1]⟩] .accepting =
        ({ Reporter.accepting with classFiles := [] ++ [⟨"B", [1]⟩].filterMap file },
          ([⟨"B", [1]⟩].filterMap file).length) ∧
      file ⟨"B", [1]⟩ = some ⟨"B", "B", [1]⟩ := by
  obtain ⟨t, ht⟩ : ∃ t, DeclarationTree.build {} .shortFirst = .ok t :=
    DeclarationTree.exists_of_isOk (by decide +kernel)
  have hnames := Source.Module.namesInDefaultPackage_shortFirst
  obtain ⟨file, hall, hfile⟩ := attributeAll_defaultPackage ht hnames (by decide)
    [⟨"B", [1]⟩] .accepting
  refine ⟨t, file, ht, hall, ?_⟩
  refine (hfile ⟨"B", [1]⟩ (.plain "B" {}) List.mem_cons_self rfl).1.2 ⟨.plain "B" {}, ?_, ?_⟩
  · refine ⟨Or.inl rfl, [], _, rfl, fun d hd => ?_⟩
    obtain rfl := List.mem_singleton.1 hd
    rw [← belongsTo_iff]
    decide
  · have hname : (Source.Module.shortFirst.firstEnding? "B").map (·.name) = some "B" := by
      decide +kernel
    obtain ⟨d, hd, hname⟩ := Option.map_eq_some_iff.1 hname
    have hmem := (Source.Module.firstEnding?_eq_some hd).1
    rw [hnames.eq_of_name hmem List.mem_cons_self hname] at hd
    exact hd

/-- **Class files of other types.** The code of `B` goes to `AB`, that of `C$D$E` goes to `C$D`, and
that of the class with a dot is not recorded at all. -/
theorem attributeAll_otherType :
    Source.Module.entangled.NamesInDefaultPackage ∧
      (∀ c ∈ Source.Module.entangled.classes, c.primary = true) ∧
      ∃ t, DeclarationTree.build {} .entangled = .ok t ∧
        (attributeAll .entangled t.bind [⟨"B", [1]⟩, ⟨"C$D$E", [2]⟩, ⟨"C$x.y", [3]⟩]
          .accepting).1.classFiles = [⟨"B", "AB", [1]⟩, ⟨"C$D$E", "C$D", [2]⟩] := by
  refine ⟨Source.Module.namesInDefaultPackage_entangled, by decide, ?_⟩
  have hrun : (DeclarationTree.build {} .entangled).toOption.map (fun t =>
      (attributeAll .entangled t.bind [⟨"B", [1]⟩, ⟨"C$D$E", [2]⟩, ⟨"C$x.y", [3]⟩]
        .accepting).1.classFiles) = some [⟨"B", "AB", [1]⟩, ⟨"C$D$E", "C$D", [2]⟩] := by
    decide +kernel
  cases ht : DeclarationTree.build {} .entangled with
  | error fault =>
    rw [ht] at hrun
    cases hrun
  | ok t =>
    rw [ht] at hrun
    exact ⟨t, rfl, Option.some.inj hrun⟩

end HostBridge
