import HostBridge.Declaration.Build
import HostBridge.Proofs.Layout
import HostBridge.Proofs.TypeReference.Ranges
import HostBridge.Proofs.TypeReference.WellFormed

/-!
# Tokens of references

Packages, imports and qualified types are referred to by the segments of a dotted name, each with a
position. All of these references are made in the same way: the name is split at its dots, and the
segments are laid out from the offset where the name is said to start. So they print the name again,
and where the name is written in the file, their positions select its segments one by one.

* `SpellsOut` — what the tokens of a reference and their positions have to do with a name;
* `RefersTo` — the references that are made for a dotted name;
* `Position.layout_exact` — layouts are exact, and references print the name that they are made for.
-/

namespace HostBridge

open List (Forall₂)
open Offset (IsChecked)
open Text (IsWrittenAt)

/-! ### Tokens -/

/-- The name of a shape in parts; wildcards and primitive types have none. -/
def TypeShape.tokens : TypeShape → List String
  | single token _ | parameterizedSingle token _ _ | array token _ _ _ => [token]
  | qualified tokens _ | parameterizedQualified tokens _ _ | arrayQualified tokens _ _ => tokens
  | _ => []

/-- The positions of the tokens. -/
def TypeShape.positions : TypeShape → List Position
  | single _ position | parameterizedSingle _ position _ | array _ _ position _ => [position]
  | qualified _ positions | parameterizedQualified _ positions _ | arrayQualified _ _ positions =>
    positions
  | _ => []

/-- **Tokens that spell out a dotted name** which is reported from `start` up to `stop`: joined by
dots they are the name, and where it is written, each position covers its token. -/
structure SpellsOut (name : String) (start stop : Int) (tokens : List String)
    (positions : List Position) : Prop where
  join_eq : Dotted.join tokens = name
  not_mem_dot : ∀ token ∈ tokens, '.' ∉ token.toList
  length_eq : positions.length = tokens.length
  covers : ∀ (file : ByteArray) (n : Nat), start = n → start < stop → IsWrittenAt file n name →
    Forall₂ (fun s p => Position.Covers p file s) tokens positions

/-- **The segments of a name with their layout** spell it out. -/
theorem spellsOut_layout (name : String) (start stop : Int) :
    SpellsOut name start stop (Dotted.split name)
      (Position.layout (Dotted.split name) start stop) where
  join_eq := Dotted.join_split name
  not_mem_dot _ := Dotted.not_mem_of_mem_split
  length_eq := Position.length_layout _ _ _
  covers file n hn hlt hwritten := by
    rw [Position.layout, if_pos hlt, hn]
    rw [← Dotted.join_split name] at hwritten
    exact Position.covers_layoutFrom
      (Text.areWrittenFrom_of_join (Dotted.split_ne_nil name) hwritten)

/-! ### References -/

/-- **The references that are made for a dotted name** which is reported from `start` up to `stop`,
with what they print, their tokens and the positions of these. Negative offsets of types count as
zero, and the bare name of an annotation is taken to end two bytes before the annotation does. -/
inductive RefersTo (name : String) : (printed : String) → (start stop : Int) →
    (tokens : List String) → (positions : List Position) → Prop
  | package (p : Source.Package) (h : Dotted.withoutTrailingDots p.name = name) :
    RefersTo name (ImportReference.ofPackage p).qualifiedName p.start p.stop
      (ImportReference.ofPackage p).tokens (ImportReference.ofPackage p).positions
  | typeImport (i : Source.Import) (h : i.className = name) :
    RefersTo name (ImportReference.ofImport i).qualifiedName (max i.type.start 0)
      (max i.type.stop 0) (ImportReference.ofImport i).tokens (ImportReference.ofImport i).positions
  | packageImport (i : Source.StarImport) (h : Dotted.withoutTrailingDots i.packageName = name) :
    RefersTo name (ImportReference.ofStarImport i).qualifiedName i.start i.stop
      (ImportReference.ofStarImport i).tokens (ImportReference.ofStarImport i).positions
  | type {o : Options} {d : Source.Descriptor} {r : TypeReference} (hname : d.name = name)
    (hdot : '.' ∈ name.toList) (harray : d.isArray = false)
    (h : TypeReference.build o d = .ok r) :
    RefersTo name r.typeName (max d.start 0) (max d.stop 0) r.shape.tokens r.shape.positions
  | identifier (hdot : '.' ∈ name.toList) (start stop : Int) :
    RefersTo name (TypeReference.ofIdentifier name start stop).typeName start (stop - 2)
      (TypeReference.ofIdentifier name start stop).shape.tokens
      (TypeReference.ofIdentifier name start stop).shape.positions

/-- **The references that are made for arrays** of a class with dots in its name. The class is
reported from `start` up to `stop`, which is where the brackets start; the texts that the entry point
of a script takes are not written anywhere. -/
inductive RefersToArray (className : String) (dimensions : Nat) :
    TypeReference → (start stop : Int) → Prop
  | type {o : Options} {d : Source.Descriptor} {r : TypeReference}
    (hspells : (⟨dimensions, .named className⟩ : ArraySignature).Spells d.name)
    (hdot : '.' ∈ className.toList) (h : TypeReference.build o d = .ok r) :
    RefersToArray className dimensions r (max d.start 0) (max d.stop 0 - 2 * dimensions)
  | texts (hname : Source.stringName = className) (hdimensions : dimensions = 1) :
    RefersToArray className dimensions MethodDeclaration.textArray 0 0

namespace ImportReference

/-- A reference with the segments of a name and their layout spells the name out. -/
theorem spellsOut_of_eq {name : String} {start stop : Int} {r : ImportReference}
    (htokens : r.tokens = Dotted.split name)
    (hpositions : r.positions = Position.layout (Dotted.split name) start stop)
    (hstart : r.start = Position.firstStart r.positions) :
    r.start = start ∧ r.qualifiedName = name ∧ SpellsOut name start stop r.tokens r.positions := by
  rw [qualifiedName, hstart, htokens, hpositions]
  exact ⟨Position.firstStart_layout (Dotted.split_ne_nil name) start stop, Dotted.join_split name,
    spellsOut_layout name start stop⟩

theorem spellsOut_ofPackage (p : Source.Package) :
    (ofPackage p).start = p.start ∧
      (ofPackage p).qualifiedName = Dotted.withoutTrailingDots p.name ∧
      SpellsOut (Dotted.withoutTrailingDots p.name) p.start p.stop (ofPackage p).tokens
        (ofPackage p).positions := by
  apply spellsOut_of_eq <;> rw [ofPackage, ofTokens]

theorem spellsOut_ofImport (i : Source.Import) :
    (ofImport i).start = max i.type.start 0 ∧ (ofImport i).qualifiedName = i.className ∧
      SpellsOut i.className (max i.type.start 0) (max i.type.stop 0) (ofImport i).tokens
        (ofImport i).positions := by
  apply spellsOut_of_eq <;> rw [ofImport, ofTokens]

theorem spellsOut_ofStarImport (i : Source.StarImport) :
    (ofStarImport i).start = i.start ∧
      (ofStarImport i).qualifiedName = Dotted.withoutTrailingDots i.packageName ∧
      SpellsOut (Dotted.withoutTrailingDots i.packageName) i.start i.stop (ofStarImport i).tokens
        (ofStarImport i).positions := by
  apply spellsOut_of_eq <;> rw [ofStarImport, ofTokens]

end ImportReference

namespace TypeReference

variable {o : Options} {name : String} {start stop : Int} {arguments : List TypeReference}
  {r : TypeReference}

/-- The reference for a name with dots spells it out. -/
theorem IsNamed.spellsOut (h : IsNamed o name start stop arguments r) (hdot : '.' ∈ name.toList)
    (harray : name.toList.head? ≠ some '[') :
    SpellsOut name start stop r.shape.tokens r.shape.positions := by
  cases h with
  -- neither a wildcard nor a primitive type has a dot in its name
  | wildcard h =>
    rw [h] at hdot
    exact absurd hdot (by decide)
  | @primitive type h =>
    rw [← h] at hdot
    exact absurd hdot (by cases type <;> decide)
  | primitiveArray h | array h | qualifiedArray h => exact absurd (head?_of_spells h) harray
  | single _ hno | parameterizedSingle _ hno => exact absurd hdot hno
  | qualified _ _ _ hlayout | parameterizedQualified _ _ _ hlayout =>
    rw [hlayout]
    exact spellsOut_layout name start stop

/-- **The reference for a descriptor** whose name has dots and is no array spells out the name. -/
theorem spellsOut_of_build {d : Source.Descriptor} (hdot : '.' ∈ d.name.toList)
    (harray : d.isArray = false) (h : build o d = .ok r) :
    r.typeName = d.name ∧
      SpellsOut d.name (max d.start 0) (max d.stop 0) r.shape.tokens r.shape.positions := by
  have hhead : d.name.toList.head? ≠ some '[' := by simpa [Source.Descriptor.isArray] using harray
  have hwildcard : d.name ≠ "?" := by
    intro heq
    rw [heq] at hdot
    exact absurd hdot (by decide)
  rw [build_eq] at h
  obtain ⟨arguments, -, h⟩ := bind_eq_ok.1 h
  have hnamed := isNamed_of_ofName h
  exact ⟨(hnamed.typeName_and_arguments hwildcard hhead).1, hnamed.spellsOut hdot hhead⟩

/-- The reference for an array of a class with dots in its name spells out the name of the class,
with a pair of brackets less in the file for each dimension. -/
theorem IsNamed.spellsOut_array (h : IsNamed o name start stop arguments r) {dimensions : Nat}
    {className : String} (hspells : (⟨dimensions, .named className⟩ : ArraySignature).Spells name)
    (hdot : '.' ∈ className.toList) :
    r.typeName = className ++ brackets dimensions ∧
      SpellsOut className start (stop - 2 * dimensions) r.shape.tokens r.shape.positions := by
  have harray := head?_of_spells hspells
  cases h with
  | wildcard h =>
    rw [h] at harray
    cases harray
  | @primitive type h =>
    rw [← h] at harray
    cases type <;> cases harray
  | primitiveArray h => cases eq_of_spells hspells h
  | array h hno =>
    cases eq_of_spells hspells h
    exact absurd hdot hno
  | qualifiedArray h _ hlayout =>
    cases eq_of_spells hspells h
    constructor
    · rw [withRange, reaching, typeName, TypeShape.typeName, Dotted.join_split]
    · rw [hlayout]
      exact spellsOut_layout className start _
  | single h | parameterizedSingle h | qualified h | parameterizedQualified h =>
    exact absurd harray h.not_array

/-- **The reference for an array** of a class with dots in its name spells out the name of the class
and prints a pair of brackets for each dimension behind it. -/
theorem spellsOut_array_of_build {d : Source.Descriptor} {dimensions : Nat} {className : String}
    (hspells : (⟨dimensions, .named className⟩ : ArraySignature).Spells d.name)
    (hdot : '.' ∈ className.toList) (h : build o d = .ok r) :
    r.typeName = className ++ brackets dimensions ∧
      SpellsOut className (max d.start 0) (max d.stop 0 - 2 * dimensions) r.shape.tokens
        r.shape.positions := by
  rw [build_eq] at h
  obtain ⟨arguments, -, h⟩ := bind_eq_ok.1 h
  exact (isNamed_of_ofName h).spellsOut_array hspells hdot

/-- The reference for a bare name with dots spells it out. -/
theorem spellsOut_ofIdentifier (hdot : '.' ∈ name.toList) (start stop : Int) :
    (ofIdentifier name start stop).typeName = name ∧
      SpellsOut name start (stop - 2) (ofIdentifier name start stop).shape.tokens
        (ofIdentifier name start stop).shape.positions := by
  rw [ofIdentifier, if_pos hdot]
  constructor
  · rw [reaching, typeName, TypeShape.typeName, Dotted.join_split]
  · exact spellsOut_layout name start (stop - 2)

end TypeReference

/-- **References print the name that they are made for**, and spell it out. -/
theorem RefersTo.spellsOut {name printed : String} {start stop : Int} {tokens : List String}
    {positions : List Position} (h : RefersTo name printed start stop tokens positions) :
    printed = name ∧ SpellsOut name start stop tokens positions := by
  cases h with
  | package p h =>
    obtain rfl := h
    exact (ImportReference.spellsOut_ofPackage p).2
  | typeImport i h =>
    obtain rfl := h
    exact (ImportReference.spellsOut_ofImport i).2
  | packageImport i h =>
    obtain rfl := h
    exact (ImportReference.spellsOut_ofStarImport i).2
  | type hname hdot harray h =>
    obtain rfl := hname
    exact TypeReference.spellsOut_of_build hdot harray h
  | identifier hdot start stop => exact TypeReference.spellsOut_ofIdentifier hdot start stop

/-- **References for arrays print the name of the class** with a pair of brackets for each
dimension, and spell out the name. -/
theorem RefersToArray.spellsOut {className : String} {dimensions : Nat} {r : TypeReference}
    {start stop : Int} (h : RefersToArray className dimensions r start stop) :
    r.typeName = className ++ brackets dimensions ∧
      SpellsOut className start stop r.shape.tokens r.shape.positions := by
  cases h with
  | type hspells hdot h => exact TypeReference.spellsOut_array_of_build hspells hdot h
  | texts hname hdimensions =>
    obtain rfl := hname
    obtain rfl := hdimensions
    constructor
    · rw [MethodDeclaration.textArray, TypeReference.reaching, TypeReference.typeName,
        TypeShape.typeName, Dotted.join_split]
    · -- the start is all that is known of the segments, as in the layout of an empty range
      exact spellsOut_layout Source.stringName 0 0

/-! ### Layouts -/

/-- **Layouts are exact.** Only the start of a name matters, once it ends behind it: the positions
of the segments have the shape of a layout, and where the name is written from the start on, each of
them covers its segment, also in its packed form unless an offset takes more than 32 bits. If the
name is said to end where it starts or before, the start is all that is known of each segment. The
sums of the layout need no more than 32 bits if the name and the byte behind it do not.

So the references for a dotted name print it and cover its segments, and those for arrays of a class
do so with the name of the class. -/
theorem Position.layout_exact (segments : List String) (start stop : Int) :
    (segments ≠ [] → start < stop → IsLayout start segments (layout segments start stop) ∧
      ∀ (file : ByteArray) (n : Nat), start = n → IsWrittenAt file n (Dotted.join segments) →
        Forall₂ (fun s p => Covers p file s) segments (layout segments start stop) ∧
        (n + (Dotted.join segments).utf8ByteSize < 0x80000000 →
          ∀ p ∈ layout segments start stop, unpack p.pack = p)) ∧
    (stop ≤ start →
      layout segments start stop = List.replicate segments.length ⟨start, start⟩) ∧
    IsChecked (0 ≤ start ∧ start + (Dotted.join segments).utf8ByteSize + 1 < 0x80000000)
      (layout? segments start stop) (layout segments start stop) ∧
    (∀ name printed tokens positions, RefersTo name printed start stop tokens positions →
      printed = name ∧ SpellsOut name start stop tokens positions) ∧
    ∀ className dimensions r, RefersToArray className dimensions r start stop →
      r.typeName = className ++ brackets dimensions ∧
        SpellsOut className start stop r.shape.tokens r.shape.positions := by
  refine ⟨fun hne hlt => ?_, fun hle => ?_, isChecked_layout segments start stop,
    fun _ _ _ _ href => href.spellsOut, fun _ _ _ href => href.spellsOut⟩
  · rw [layout, if_pos hlt]
    refine ⟨isLayout_layoutFrom hne start, fun file n hn hwritten => ?_⟩
    rw [hn]
    exact ⟨covers_layoutFrom (Text.areWrittenFrom_of_join hne hwritten),
      fun hsize _ hp => unpack_pack_layoutFrom hsize hp⟩
  · rw [layout, if_neg (by omega), List.map_const']

/-- A name with a character of two bytes and an empty segment is laid out over its text even if it
is said to end behind its first byte, and so is an array whose element has this name. -/
theorem Position.layout_exact_emptySegment :
    Position.layout ["a", "ü", "", "List"] 2 3 = [⟨2, 2⟩, ⟨4, 5⟩, ⟨7, 6⟩, ⟨8, 11⟩] ∧
    layout? ["a", "ü", "", "List"] 2 3 = some (layout ["a", "ü", "", "List"] 2 3) ∧
    IsLayout 2 ["a", "ü", "", "List"] (layout ["a", "ü", "", "List"] 2 3) ∧
    Forall₂ (fun s p => Covers p "x a.ü..List[] l".toUTF8 s) ["a", "ü", "", "List"]
      (layout ["a", "ü", "", "List"] 2 3) ∧
    (∀ p ∈ layout ["a", "ü", "", "List"] 2 3, unpack p.pack = p) ∧
    layout ["a", "ü", "", "List"] 2 2 = List.replicate 4 ⟨2, 2⟩ ∧
    SpellsOut "a.ü..List" 2 3 (ImportReference.ofPackage ⟨"a.ü..List.", 2, 3⟩).tokens
      (ImportReference.ofPackage ⟨"a.ü..List.", 2, 3⟩).positions ∧
    ∃ r, TypeReference.build {} ((Source.Descriptor.named "[La.ü..List;").placedAt 2 5) = .ok r ∧
      r.typeName = "a.ü..List[]" ∧
      SpellsOut "a.ü..List" 2 3 r.shape.tokens r.shape.positions := by
  have hwritten : IsWrittenAt "x a.ü..List[] l".toUTF8 2 (Dotted.join ["a", "ü", "", "List"]) := by
    unfold IsWrittenAt
    decide +kernel
  obtain ⟨hlayout, -, hchecked, hrefers, harray⟩ := layout_exact ["a", "ü", "", "List"] 2 3
  obtain ⟨hshape, hcovers⟩ := hlayout (List.cons_ne_nil _ _) (by decide)
  obtain ⟨hcovers, hpacked⟩ := hcovers "x a.ü..List[] l".toUTF8 2 rfl hwritten
  obtain ⟨r, hr⟩ : ∃ r, TypeReference.build {}
      ((Source.Descriptor.named "[La.ü..List;").placedAt 2 5) = .ok r := ⟨_, rfl⟩
  have hsignature : (⟨1, .named "a.ü..List"⟩ : ArraySignature).Spells "[La.ü..List;" :=
    (ArraySignature.ofText?_eq_some_iff (by decide)).1 (by decide +kernel)
  obtain ⟨hname, hspells⟩ := harray "a.ü..List" 1 r (.type hsignature (by decide) hr)
  obtain ⟨-, hempty, -, -, -⟩ := layout_exact ["a", "ü", "", "List"] 2 2
  refine ⟨by decide, hchecked.succeeds (by decide +kernel), hshape, hcovers,
    hpacked (by decide +kernel), hempty (by decide),
    (hrefers "a.ü..List" _ _ _ (.package ⟨"a.ü..List.", 2, 3⟩ (by decide +kernel))).2,
    r, hr, ?_, hspells⟩
  rw [hname]
  decide +kernel

end HostBridge
