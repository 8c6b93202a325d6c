import HostBridge.Proofs.Offset
import HostBridge.Proofs.Position
import Mathlib.Data.List.Chain
import Mathlib.Data.List.Forall2

/-!
# Dotted names over their text

A dotted name is laid out by nothing but the byte lengths of its segments: each of them starts one
byte behind the one before. So the layout has its shape whatever is written in the file, `IsLayout`,
and if the segments are written one after the other from the given start on, each position selects
the bytes of its segment, `Covers`. It does not matter which byte stands between two segments.

* `isLayout_layoutFrom` — the shape of a layout;
* `covers_layoutFrom` — a layout over segments that are written there;
* `areWrittenFrom_of_join` — a dotted name that is written somewhere is such a text;
* `isChecked_layout` — the sums of a layout fit in 32 bits if its name does;
* `unpack_pack` — as a word, a position keeps both its ends.
-/

namespace HostBridge

open List (Forall₂)

variable {file : ByteArray} {n : Nat} {s t : String} {segments : List String}

/-! ### Texts in a file -/

namespace Text

/-- **A text that is written in a file** from an offset on. -/
def IsWrittenAt (file : ByteArray) (start : Nat) (s : String) : Prop :=
  file.extract start (start + s.utf8ByteSize) = s.toByteArray

/-- **Texts that are written one after the other**, with one byte between neighbours. -/
def AreWrittenFrom (file : ByteArray) : Nat → List String → Prop
  | _, [] => True
  | start, s :: ss =>
    IsWrittenAt file start s ∧ AreWrittenFrom file (start + s.utf8ByteSize + 1) ss

/-- Of a text that is written somewhere both parts are. -/
theorem isWrittenAt_append (h : IsWrittenAt file n (s ++ t)) :
    IsWrittenAt file n s ∧ IsWrittenAt file (n + s.utf8ByteSize) t := by
  rw [IsWrittenAt, String.utf8ByteSize_append, String.toByteArray_append] at h
  constructor
  · calc file.extract n (n + s.utf8ByteSize)
        = (file.extract n (n + (s.utf8ByteSize + t.utf8ByteSize))).extract 0 s.utf8ByteSize := by
          rw [ByteArray.extract_extract, Nat.add_zero, Nat.min_eq_left (by omega)]
      _ = s.toByteArray := by
          rw [h, ByteArray.extract_append_eq_left s.size_toByteArray.symm]
  · calc file.extract (n + s.utf8ByteSize) (n + s.utf8ByteSize + t.utf8ByteSize)
        = (file.extract n (n + (s.utf8ByteSize + t.utf8ByteSize))).extract s.utf8ByteSize
            (s.utf8ByteSize + t.utf8ByteSize) := by
          rw [ByteArray.extract_extract, Nat.min_self, Nat.add_assoc]
      _ = t.toByteArray := by
          rw [h, ByteArray.extract_append_eq_right s.size_toByteArray.symm
            (by rw [s.size_toByteArray, t.size_toByteArray])]

/-- **The segments of a dotted name** are written one after the other where the name is written. -/
theorem areWrittenFrom_of_join (hne : segments ≠ [])
    (h : IsWrittenAt file n (Dotted.join segments)) : AreWrittenFrom file n segments := by
  induction segments generalizing n with
  | nil => exact absurd rfl hne
  | cons s ss ih =>
    cases ss with
    | nil =>
      rw [Dotted.join, String.intercalate_singleton] at h
      exact ⟨h, trivial⟩
    | cons t ts =>
      rw [Dotted.join, String.intercalate_cons_cons, String.append_assoc] at h
      obtain ⟨hfirst, h⟩ := isWrittenAt_append h
      obtain ⟨-, hrest⟩ := isWrittenAt_append h
      exact ⟨hfirst, ih (List.cons_ne_nil t ts) hrest⟩

end Text

namespace Position

open Offset (Fits fit IsChecked)
open Text (IsWrittenAt AreWrittenFrom)

/-! ### What a position covers -/

/-- The bytes of a file that a position selects, the one at its end included. -/
def select (p : Position) (file : ByteArray) : ByteArray :=
  file.extract p.start.toNat (p.stop + 1).toNat

/-- **A position that covers a text**: it is as long as the text and selects its bytes. The position
of an empty text ends one byte before it starts. -/
structure Covers (p : Position) (file : ByteArray) (s : String) : Prop where
  start_nonneg : 0 ≤ p.start
  length_eq : p.stop - p.start + 1 = s.utf8ByteSize
  select_eq : p.select file = s.toByteArray

theorem covers_of_isWrittenAt (h : IsWrittenAt file n s) :
    Covers ⟨n, n + s.utf8ByteSize - 1⟩ file s where
  start_nonneg := Int.natCast_nonneg n
  length_eq := by
    dsimp only
    omega
  select_eq := by
    have hstop : ((n : Int) + s.utf8ByteSize - 1 + 1).toNat = n + s.utf8ByteSize := by omega
    rw [select, hstop, Int.toNat_natCast]
    exact h

/-- **A layout over segments that are written there.** -/
theorem covers_layoutFrom (h : AreWrittenFrom file n segments) :
    Forall₂ (fun s p => Covers p file s) segments (layoutFrom n segments) := by
  induction segments generalizing n with
  | nil => exact .nil
  | cons s ss ih =>
    obtain ⟨hfirst, hrest⟩ := h
    have hlater := ih hrest
    push_cast at hlater
    exact .cons (covers_of_isWrittenAt hfirst) hlater

/-! ### The shape of a layout -/

/-- **The layout of a dotted name** from an offset on: a position for each segment, as long as the
segment. There is one byte between neighbours, and together they reach as far as the name. -/
structure IsLayout (start : Int) (segments : List String) (positions : List Position) : Prop where
  lengths : Forall₂ (fun s p => p.stop - p.start + 1 = (s.utf8ByteSize : Int)) segments positions
  ascending : positions.Pairwise (·.start < ·.start)
  apart : positions.IsChain fun p q => q.start = p.stop + 2
  first : positions.head?.map (·.start) = some start
  last : positions.getLast?.map (·.stop) = some (start + (Dotted.join segments).utf8ByteSize - 1)

/-- Each segment lies within the name. -/
theorem bounds_of_mem_layoutFrom {p : Position} {start : Int}
    (hp : p ∈ layoutFrom start segments) :
    start ≤ p.start ∧ p.start ≤ p.stop + 1 ∧
      p.stop < start + (Dotted.join segments).utf8ByteSize := by
  induction segments generalizing start with
  | nil => exact absurd hp List.not_mem_nil
  | cons s ss ih =>
    cases ss with
    | nil =>
      obtain rfl := List.mem_singleton.1 hp
      rw [Dotted.join, String.intercalate_singleton]
      dsimp only
      omega
    | cons t ts =>
      rw [utf8ByteSize_join_cons]
      rcases List.mem_cons.1 hp with rfl | hp
      · dsimp only
        omega
      · have := ih hp
        omega

theorem lengths_layoutFrom (start : Int) (segments : List String) :
    Forall₂ (fun s p => p.stop - p.start + 1 = (s.utf8ByteSize : Int)) segments
      (layoutFrom start segments) := by
  induction segments generalizing start with
  | nil => exact .nil
  | cons s ss ih =>
    refine .cons ?_ (ih _)
    dsimp only
    omega

theorem ascending_layoutFrom (start : Int) (segments : List String) :
    (layoutFrom start segments).Pairwise (·.start < ·.start) := by
  induction segments generalizing start with
  | nil => exact .nil
  | cons s ss ih =>
    refine .cons (fun p hp => ?_) (ih _)
    have := bounds_of_mem_layoutFrom hp
    dsimp only
    omega

theorem apart_layoutFrom (start : Int) (segments : List String) :
    (layoutFrom start segments).IsChain fun p q => q.start = p.stop + 2 := by
  induction segments generalizing start with
  | nil => exact .nil
  | cons s ss ih =>
    cases ss with
    | nil => exact .singleton _
    | cons t ts =>
      refine .cons_cons ?_ (ih _)
      dsimp only
      omega

theorem isLayout_layoutFrom (hne : segments ≠ []) (start : Int) :
    IsLayout start segments (layoutFrom start segments) where
  lengths := lengths_layoutFrom start segments
  ascending := ascending_layoutFrom start segments
  apart := apart_layoutFrom start segments
  first := by
    obtain ⟨s, ss, rfl⟩ := List.exists_cons_of_ne_nil hne
    rfl
  last := by
    have hlast := lastStop_layoutFrom hne start
    have hpositions : layoutFrom start segments ≠ [] := by
      rw [Ne, ← List.length_eq_zero_iff, length_layoutFrom, List.length_eq_zero_iff]
      exact hne
    rw [lastStop, List.getLast?_eq_some_getLast hpositions] at hlast
    rw [List.getLast?_eq_some_getLast hpositions, ← hlast]
    rfl

/-! ### Checked sums -/

/-- `layoutFrom` with its sums checked. The start of a next segment is computed behind the last one,
too. -/
def layoutFrom? (start : Int) : List String → Option (List Position)
  | [] => some []
  | segment :: segments => do
    let size ← fit segment.utf8ByteSize
    let past ← fit (start + size)
    let stop ← fit (past - 1)
    -- onto the byte behind the segment, then past it
    let next ← fit (stop + 2)
    let positions ← layoutFrom? next segments
    return ⟨start, stop⟩ :: positions

/-- `layout` with its sums checked. -/
def layout? (segments : List String) (start stop : Int) : Option (List Position) :=
  if start < stop then layoutFrom? start segments
  else some (segments.map fun _ => ⟨start, start⟩)

/-- There is room for a layout if there is for the second byte behind each segment. -/
theorem isChecked_layoutFrom (start : Int) (segments : List String) :
    IsChecked (0 ≤ start ∧ ∀ p ∈ layoutFrom start segments, p.stop + 2 < 0x80000000)
      (layoutFrom? start segments) (layoutFrom start segments) := by
  induction segments generalizing start with
  | nil => exact .pure _ []
  | cons s ss ih =>
    rw [layoutFrom, layoutFrom?]
    have hnext : start + s.utf8ByteSize - 1 + 2 = start + s.utf8ByteSize + 1 := by omega
    -- of the sums for the first segment the start of the next one is the largest
    have hfirst (h : 0 ≤ start ∧ ∀ p ∈ (⟨start, start + s.utf8ByteSize - 1⟩ : Position) ::
        layoutFrom (start + s.utf8ByteSize + 1) ss, p.stop + 2 < 0x80000000) {n : Int}
        (hlower : -1 ≤ n) (hupper : n ≤ start + s.utf8ByteSize + 1) : Fits n := by
      have := h.2 _ List.mem_cons_self
      dsimp only at this
      exact ⟨by omega, by omega⟩
    refine .bind (.fit _ fun h => hfirst h (by omega) (by omega)) <|
      .bind (.fit _ fun h => hfirst h (by omega) (by omega)) <|
      .bind (.fit _ fun h => hfirst h (by omega) (by omega)) <|
      .bind (.fit _ fun h => hfirst h (by omega) (by omega)) ?_
    rw [hnext]
    refine .bind ((ih _).mono fun h => ⟨by omega, fun p hp => ?_⟩) (.pure _ _)
    exact h.2 p (List.mem_cons_of_mem _ hp)

/-- **A layout needs no more than 32 bits** if the name and the byte behind it leave room. -/
theorem isChecked_layout (segments : List String) (start stop : Int) :
    IsChecked (0 ≤ start ∧ start + (Dotted.join segments).utf8ByteSize + 1 < 0x80000000)
      (layout? segments start stop) (layout segments start stop) := by
  rw [layout?, layout]
  split
  · refine (isChecked_layoutFrom start segments).mono fun h => ⟨h.1, fun p hp => ?_⟩
    have := bounds_of_mem_layoutFrom hp
    omega
  · exact .pure _ _

/-! ### The packed form -/

/-- **A word keeps both ends of a position** that fit in 32 bits. -/
theorem unpack_pack {p : Position} (hstart : -0x80000000 ≤ p.start ∧ p.start < 0x80000000)
    (hstop : -0x80000000 ≤ p.stop ∧ p.stop < 0x80000000) : unpack p.pack = p := by
  obtain ⟨start, stop⟩ := p
  dsimp only at hstart hstop
  -- no bit is lost in the word, and its low half read as a signed number is the end
  have hword : (Int64.ofInt (start * 0x100000000 + stop % 0x100000000)).toInt =
      start * 0x100000000 + stop % 0x100000000 :=
    Int64.toInt_ofInt_of_le (by omega) (by omega)
  have hlow : (start * 0x100000000 + stop % 0x100000000).bmod 0x100000000 = stop := by
    rw [Int.bmod_eq_iff (by decide)]
    exact ⟨by omega, by omega, by omega⟩
  rw [unpack, pack, hword, hlow]
  congr 1
  omega

/-- **The words for a layout** keep its positions if the name ends within 32 bits. -/
theorem unpack_pack_layoutFrom (h : n + (Dotted.join segments).utf8ByteSize < 0x80000000)
    {p : Position} (hp : p ∈ layoutFrom n segments) : unpack p.pack = p := by
  have hbounds := bounds_of_mem_layoutFrom hp
  exact unpack_pack (by omega) (by omega)

end Position

end HostBridge
