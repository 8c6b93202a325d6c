import HostBridge.Proofs.Text.Dotted
import HostBridge.Proofs.TypeReference.Tokens
import Mathlib.Data.List.Forall2

/-!
# Imports in source order

The front end hands over the imports of types and those of packages as two lists, and the host wants
them as one, in source order. They are sorted by the offsets where their references start. For a
type this is the offset that is reported, or zero if that is negative; for a package it is the
reported one in any case. Imports that the front end made up all start at zero, so the order of
imports with the same start matters: it is the one of the lists, types before packages.

* `IsStableSort` — what it means to sort and keep the order of equal keys. There is one such list,
  `IsStableSort.unique`, and sorting by merging finds it, `isStableSort_mergeSort`;
* `ImportReference.StandsFor` — the reference for an import;
* `DeclarationTree.imports_of_build` — the imports of a tree.
-/

namespace HostBridge

variable {α : Type} {key : α → Int} {xs ys zs : List α}

/-! ### Stable sorting -/

/-- **A list sorted by a key**, in which elements with the same key keep their order. -/
structure IsStableSort (key : α → Int) (xs ys : List α) : Prop where
  perm : ys.Perm xs
  ascending : ys.Pairwise (key · ≤ key ·)
  stable : ∀ k, ys.filter (key · = k) = xs.filter (key · = k)

/-- Lists with the same elements for each key have the same elements. -/
theorem mem_iff_of_filter_eq (h : ∀ k, ys.filter (key · = k) = zs.filter (key · = k)) (x : α) :
    x ∈ ys ↔ x ∈ zs := by
  have hx : x ∈ ys.filter (key · = key x) ↔ x ∈ zs.filter (key · = key x) := by rw [h]
  simpa using hx

/-- **A sorted list is determined by the elements for each key.** -/
theorem eq_of_filter_eq (hys : ys.Pairwise (key · ≤ key ·)) (hzs : zs.Pairwise (key · ≤ key ·))
    (h : ∀ k, ys.filter (key · = k) = zs.filter (key · = k)) : ys = zs := by
  induction ys generalizing zs with
  | nil =>
    cases zs with
    | nil => rfl
    | cons z zs => exact absurd ((mem_iff_of_filter_eq h z).2 List.mem_cons_self) List.not_mem_nil
  | cons y ys ih =>
    cases zs with
    | nil => exact absurd ((mem_iff_of_filter_eq h y).1 List.mem_cons_self) List.not_mem_nil
    | cons z zs =>
      -- either list starts with the least key
      have hle : key z ≤ key y := by
        rcases List.mem_cons.1 ((mem_iff_of_filter_eq h y).1 List.mem_cons_self) with rfl | hy
        · exact Int.le_refl _
        · exact List.rel_of_pairwise_cons hzs hy
      have hle' : key y ≤ key z := by
        rcases List.mem_cons.1 ((mem_iff_of_filter_eq h z).2 List.mem_cons_self) with rfl | hz
        · exact Int.le_refl _
        · exact List.rel_of_pairwise_cons hys hz
      have hkey : key z = key y := Int.le_antisymm hle hle'
      have hfirst := h (key y)
      rw [List.filter_cons_of_pos (by simp), List.filter_cons_of_pos (by simp [hkey])] at hfirst
      obtain ⟨rfl, hrest⟩ := List.cons.inj hfirst
      refine congrArg (y :: ·) (ih hys.of_cons hzs.of_cons fun k => ?_)
      by_cases hk : key y = k
      · rw [← hk, hrest]
      · have hothers := h k
        rwa [List.filter_cons_of_neg (by simp [hk]), List.filter_cons_of_neg (by simp [hk])]
          at hothers

/-- **There is one way to sort** and keep the order of equal keys. -/
theorem IsStableSort.unique (hys : IsStableSort key xs ys) (hzs : IsStableSort key xs zs) :
    ys = zs :=
  eq_of_filter_eq hys.ascending hzs.ascending fun k => (hys.stable k).trans (hzs.stable k).symm

/-- No other keys but those of the elements have to be looked at. -/
theorem isStableSort_iff : IsStableSort key xs ys ↔ ys.Perm xs ∧ ys.Pairwise (key · ≤ key ·) ∧
    ∀ x ∈ xs, ys.filter (key · = key x) = xs.filter (key · = key x) := by
  refine ⟨fun h => ⟨h.perm, h.ascending, fun x _ => h.stable (key x)⟩, ?_⟩
  rintro ⟨hperm, hascending, hstable⟩
  refine ⟨hperm, hascending, fun k => ?_⟩
  by_cases hk : ∃ x ∈ xs, key x = k
  · obtain ⟨x, hx, rfl⟩ := hk
    exact hstable x hx
  · have hnone : xs.filter (key · = k) = [] := List.filter_eq_nil_iff.2 fun x hx heq =>
      hk ⟨x, hx, of_decide_eq_true heq⟩
    rw [hnone, ← List.length_eq_zero_iff, (hperm.filter _).length_eq, hnone, List.length_nil]

instance [DecidableEq α] : Decidable (IsStableSort key xs ys) :=
  decidable_of_iff' _ isStableSort_iff

/-- **Sorting by merging is stable.** -/
theorem isStableSort_mergeSort (key : α → Int) (xs : List α) :
    IsStableSort key xs (xs.mergeSort fun a b => key a ≤ key b) := by
  have htrans (a b c : α) (hab : decide (key a ≤ key b) = true)
      (hbc : decide (key b ≤ key c) = true) : decide (key a ≤ key c) = true :=
    decide_eq_true (Int.le_trans (of_decide_eq_true hab) (of_decide_eq_true hbc))
  have htotal (a b : α) : (decide (key a ≤ key b) || decide (key b ≤ key a)) = true := by
    simpa using Int.le_total (key a) (key b)
  have hperm := List.mergeSort_perm xs fun a b => key a ≤ key b
  refine ⟨hperm, (List.pairwise_mergeSort htrans htotal xs).imp of_decide_eq_true, fun k => ?_⟩
  -- elements with the same key are sorted already, so they stay in this order
  have hsorted : (xs.filter (key · = k)).Pairwise fun a b => decide (key a ≤ key b) = true := by
    refine List.pairwise_of_forall_mem_list fun a ha b hb => ?_
    simp only [List.mem_filter, decide_eq_true_eq] at ha hb
    exact decide_eq_true (by omega)
  have hsublist := (List.sublist_mergeSort htrans htotal hsorted List.filter_sublist).filter
    (key · = k)
  simp only [List.filter_filter, Bool.and_self] at hsublist
  exact (hsublist.eq_of_length (hperm.filter _).length_eq.symm).symm

/-! ### Imports -/

namespace Source

/-- An import, of a type or of a whole package. -/
inductive AnyImport where
  | type (i : Import)
  | package (i : StarImport)

namespace AnyImport

/-- Where an import starts. -/
def start : AnyImport → Int
  | type i => max i.type.start 0
  | package i => i.start

def localName : AnyImport → Option String
  | type i => i.localName
  | package _ => none

def isOnDemand : AnyImport → Bool
  | type _ => false
  | package _ => true

/-- **The name of what is imported**: the one of the class, or the one of the package without the
dots at its end. -/
inductive Names : AnyImport → String → Prop
  | type (i : Import) : Names (type i) i.className
  | package {i : StarImport} {name : String} {dots : Nat}
    (h : i.packageName.toList = name.toList ++ List.replicate dots '.')
    (hlast : name.toList.getLast? ≠ some '.') : Names (package i) name

/-- The reference for an import. -/
def reference : AnyImport → ImportReference
  | type i => .ofImport i
  | package i => .ofStarImport i

end AnyImport

/-- The imports of a module: those of types, then those of packages. -/
def Module.allImports (m : Module) : List AnyImport :=
  m.imports.map .type ++ m.starImports.map .package

end Source

/-- **The reference for an import**: it starts where the import does and names what is imported,
segment by segment, with a position for each of them. -/
structure ImportReference.StandsFor (i : Source.AnyImport) (r : ImportReference) : Prop where
  start : r.start = i.start
  onDemand : r.onDemand = i.isOnDemand
  localName : r.localName = i.localName
  names : i.Names r.qualifiedName
  not_mem_dot : ∀ token ∈ r.tokens, '.' ∉ token.toList
  length_eq : r.positions.length = r.tokens.length

namespace ImportReference

theorem standsFor_reference (i : Source.AnyImport) : StandsFor i i.reference := by
  cases i with
  | type i =>
    obtain ⟨hstart, hname, hspells⟩ := spellsOut_ofImport i
    exact ⟨hstart, rfl, rfl, hname ▸ .type i, hspells.not_mem_dot, hspells.length_eq⟩
  | package i =>
    obtain ⟨hstart, hname, hspells⟩ := spellsOut_ofStarImport i
    obtain ⟨⟨dots, hdots⟩, hlast⟩ := Dotted.withoutTrailingDots_spec i.packageName
    refine ⟨hstart, rfl, rfl, ?_, hspells.not_mem_dot, hspells.length_eq⟩
    rw [Source.AnyImport.reference, hname]
    exact .package hdots hlast

/-- The references are sorted as the imports are. -/
theorem ofModule_eq (m : Source.Module) :
    ofModule m = (m.allImports.mergeSort fun a b => a.start ≤ b.start).map (·.reference) := by
  have hsame (a b : Source.AnyImport) : decide (a.start ≤ b.start) =
      decide (a.reference.start ≤ b.reference.start) := by
    rw [(standsFor_reference a).start, (standsFor_reference b).start]
  rw [List.map_mergeSort (s := fun a b => decide (a.start ≤ b.start)) fun a _ b _ => hsame a b,
    ofModule, Source.Module.allImports, List.map_append, List.map_map, List.map_map]
  rfl

end ImportReference

namespace DeclarationTree

variable {o : Options} {m : Source.Module} {t : DeclarationTree}

theorem imports_eq (h : build o m = .ok t) : t.imports = ImportReference.ofModule m := by
  obtain ⟨forest, -, h⟩ := bind_eq_ok.1 h
  obtain rfl := Except.ok.inj h
  rfl

/-- **The imports of a tree** are in source order. There is one order of the imports of the module,
those of types before those of packages, in which their starts ascend and imports with the same
start keep their order. The imports of the tree are the references for the imports in this order. -/
theorem imports_of_build (h : build o m = .ok t) :
    (∃ sorted, (∀ is, IsStableSort Source.AnyImport.start m.allImports is ↔ is = sorted) ∧
      List.Forall₂ ImportReference.StandsFor sorted t.imports) ∧
    IsStableSort ImportReference.start (m.imports.map .ofImport ++ m.starImports.map .ofStarImport)
      t.imports := by
  rw [imports_eq h]
  refine ⟨⟨m.allImports.mergeSort fun a b => a.start ≤ b.start, fun is => ?_, ?_⟩, ?_⟩
  · have hsort := isStableSort_mergeSort Source.AnyImport.start m.allImports
    exact ⟨fun his => his.unique hsort, fun heq => heq ▸ hsort⟩
  · rw [ImportReference.ofModule_eq, List.forall₂_map_right_iff]
    exact List.forall₂_same.2 fun i _ => ImportReference.standsFor_reference i
  · exact isStableSort_mergeSort ImportReference.start _

end DeclarationTree

/-- Imports of packages and of types in turn, as they come in a file. A type and a package start at
the same offset, and one type is imported under another name. -/
def Source.mixedImports : List AnyImport :=
  [.package ⟨"c.", -4, 2⟩, .type ((Import.plain "a.A" 0 0).asName "Other"),
    .type (.plain "b.B" 20 23), .package ⟨"java.util..", 20, 30⟩]

/-- A module with these imports, those of types and those of packages in another order. -/
def Source.Module.withMixedImports : Module :=
  ((((empty ⟨1⟩).withImport (.plain "b.B" 20 23)).withImport
    ((Import.plain "a.A" 0 0).asName "Other")).withStarImport
      ⟨"java.util..", 20, 30⟩).withStarImport ⟨"c.", -4, 2⟩

/-- A package that starts below zero comes before a type that is made up, and a type before a
package at the same place. -/
theorem DeclarationTree.imports_of_build_mixed :
    ∃ t, build {} .withMixedImports = .ok t ∧
      t.imports = Source.mixedImports.map (·.reference) ∧
      t.imports.map (·.qualifiedName) = ["c", "a.A", "b.B", "java.util"] ∧
      ∃ sorted, IsStableSort Source.AnyImport.start
        Source.Module.withMixedImports.allImports sorted ∧
          List.Forall₂ ImportReference.StandsFor sorted t.imports := by
  obtain ⟨t, ht⟩ : ∃ t, build {} .withMixedImports = .ok t := ⟨_, rfl⟩
  obtain ⟨⟨sorted, hsorted, hstand⟩, hsort⟩ := imports_of_build ht
  have hmixed : IsStableSort ImportReference.start
      (Source.Module.withMixedImports.imports.map .ofImport ++
        Source.Module.withMixedImports.starImports.map .ofStarImport)
      (Source.mixedImports.map (·.reference)) := by decide +kernel
  have himports := hsort.unique hmixed
  refine ⟨t, ht, himports, ?_, sorted, (hsorted sorted).2 rfl, hstand⟩
  rw [himports]
  decide +kernel

end HostBridge
