import HostBridge.Proofs.Text.Bytes
import HostBridge.Text.Lines
import Mathlib.Data.List.TakeWhile
import Mathlib.Tactic.SplitIfs

/-!
# Lines and their bytes

Line breaks are found among the characters of a text, while their offsets count bytes. Read off the
bytes alone, a line ends at a line feed, and at a carriage return that no line feed follows,
`endsLineAt`. The two agree, since a character beyond ASCII has neither of these bytes:

* `lineBreaks_eq` — the line breaks of a text are the offsets of all bytes that end a line, in
  ascending order.

The lines of a text are what lies between the line breaks, each with the break that ends it, and
they are counted from one. An offset is in the line `lineAt`, and the lines start at `lineStarts`.
Columns are counted from one as well, and the bytes of a line are its columns, `IsColumn`.
-/

namespace HostBridge.Text

/-! ### Bytes -/

/-- The bytes of the UTF-8 form of a text. -/
def bytesOf (cs : List Char) : List UInt8 := cs.flatMap String.utf8EncodeChar

@[simp] theorem bytesOf_nil : bytesOf [] = [] := rfl

@[simp] theorem bytesOf_cons (c : Char) (cs : List Char) :
    bytesOf (c :: cs) = String.utf8EncodeChar c ++ bytesOf cs := rfl

@[simp] theorem length_bytesOf (cs : List Char) : (bytesOf cs).length = byteLength cs := by
  induction cs with
  | nil => rfl
  | cons c cs ih => simp [ih]

/-- A byte of the ASCII range is a character of its own. -/
theorem toNat_of_mem_utf8EncodeChar {c : Char} {b : UInt8} (hb : b ∈ String.utf8EncodeChar c)
    (hascii : b.toNat < 128) : c.toNat = b.toNat := by
  have hc : c.toNat = c.val.toNat := rfl
  have hmod : ∀ n, (UInt8.ofNat n).toNat = n % 256 := fun n => UInt8.toNat_ofNat'
  rw [String.utf8EncodeChar.eq_1] at hb
  -- a form of two bytes or more has no byte of the ASCII range
  split_ifs at hb <;>
    simp only [List.mem_cons, List.not_mem_nil, or_false, ← UInt8.toNat_inj, hmod] at hb <;> omega

/-! ### Bytes that end a line -/

/-- The byte of a line feed. -/
def lineFeed : UInt8 := 10

/-- The byte of a carriage return. -/
def carriageReturn : UInt8 := 13

/-- Whether the byte at an offset ends a line. -/
def endsLineAt (bs : List UInt8) (i : Nat) : Bool :=
  bs[i]? == some lineFeed || (bs[i]? == some carriageReturn && bs[i + 1]? != some lineFeed)

/-- The offsets of the bytes that end a line. -/
def lineEnds (bs : List UInt8) : List Nat := (List.range bs.length).filter (endsLineAt bs)

section LineEnds

variable {b : UInt8} {bs rest : List UInt8} {c : Char} {cs : List Char}

theorem lineEnds_cons (b : UInt8) (bs : List UInt8) :
    lineEnds (b :: bs) =
      if endsLineAt (b :: bs) 0 then 0 :: (lineEnds bs).map (· + 1)
      else (lineEnds bs).map (· + 1) := by
  have hshift : endsLineAt (b :: bs) ∘ Nat.succ = endsLineAt bs := by
    funext i
    simp [endsLineAt]
  rw [lineEnds, List.length_cons, List.range_succ_eq_map, List.filter_cons, List.filter_map, hshift]
  rfl

/-- Bytes that are neither line feeds nor carriage returns only shift the offsets. -/
theorem lineEnds_append (h : ∀ b ∈ bs, b ≠ lineFeed ∧ b ≠ carriageReturn) (rest : List UInt8) :
    lineEnds (bs ++ rest) = (lineEnds rest).map (· + bs.length) := by
  induction bs with
  | nil => simp
  | cons b bs ih =>
    obtain ⟨⟨hlf, hcr⟩, hbs⟩ := List.forall_mem_cons.1 h
    rw [List.cons_append, lineEnds_cons, if_neg (by simp [endsLineAt, hlf, hcr]), ih hbs,
      List.map_map]
    exact List.map_congr_left fun i _ => Nat.add_assoc i bs.length 1

theorem head_bytesOf_eq_lineFeed_iff :
    (bytesOf cs)[0]? = some lineFeed ↔ cs.head? = some '\n' := by
  cases cs with
  | nil => simp
  | cons c cs =>
    obtain ⟨b, bs, hbs⟩ := List.exists_cons_of_ne_nil (String.utf8EncodeChar_ne_nil (c := c))
    rw [bytesOf_cons, hbs, List.cons_append, List.getElem?_cons_zero, List.head?_cons,
      Option.some_inj, Option.some_inj]
    constructor
    · rintro rfl
      exact Char.toNat_inj.1 (toNat_of_mem_utf8EncodeChar (hbs ▸ List.mem_cons_self) (by decide))
    · rintro rfl
      exact (List.cons.inj hbs).1.symm

/-- What a character adds to the offsets of the line ends: its own, if it ends a line. -/
theorem lineEnds_bytesOf_cons (c : Char) (cs : List Char) :
    lineEnds (bytesOf (c :: cs)) =
      if c = '\n' ∨ (c = '\r' ∧ cs.head? ≠ some '\n') then 0 :: (lineEnds (bytesOf cs)).map (· + 1)
      else (lineEnds (bytesOf cs)).map (· + c.utf8Size) := by
  by_cases hlf : c = '\n'
  · subst hlf
    have hbytes : bytesOf ('\n' :: cs) = lineFeed :: bytesOf cs := rfl
    rw [if_pos (.inl rfl), hbytes, lineEnds_cons, if_pos (by simp [endsLineAt])]
  by_cases hcr : c = '\r'
  · -- whether it ends a line shows at the byte behind it
    subst hcr
    have hbytes : bytesOf ('\r' :: cs) = carriageReturn :: bytesOf cs := rfl
    have hends : endsLineAt (carriageReturn :: bytesOf cs) 0 = true ↔ cs.head? ≠ some '\n' := by
      rw [Ne, ← head_bytesOf_eq_lineFeed_iff]
      simp [endsLineAt, carriageReturn, lineFeed]
    rw [hbytes, lineEnds_cons]
    exact if_congr (by simp [hends]) rfl rfl
  · have hother : ∀ b ∈ String.utf8EncodeChar c, b ≠ lineFeed ∧ b ≠ carriageReturn := by
      intro b hb
      constructor
      · rintro rfl
        exact hlf (Char.toNat_inj.1 (toNat_of_mem_utf8EncodeChar hb (by decide)))
      · rintro rfl
        exact hcr (Char.toNat_inj.1 (toNat_of_mem_utf8EncodeChar hb (by decide)))
    rw [if_neg (by simp [hlf, hcr]), bytesOf_cons, lineEnds_append hother,
      String.length_utf8EncodeChar]

end LineEnds

/-! ### Line breaks -/

/-- The offsets of the bytes of a text that end a line. -/
def breakOffsets (text : String) : List Nat := lineEnds (bytesOf text.toList)

theorem mem_breakOffsets {text : String} {i : Nat} :
    i ∈ breakOffsets text ↔ i < text.utf8ByteSize ∧ endsLineAt (bytesOf text.toList) i = true := by
  rw [breakOffsets, lineEnds, List.mem_filter, List.mem_range, length_bytesOf, byteLength_toList]

theorem pairwise_breakOffsets (text : String) : (breakOffsets text).Pairwise (· < ·) :=
  List.pairwise_lt_range.filter _

theorem lineBreaksFrom_eq (offset : Int) (cs : List Char) :
    lineBreaksFrom offset cs = (lineEnds (bytesOf cs)).map fun i : Nat => offset + i := by
  induction cs generalizing offset with
  | nil => rfl
  | cons c cs ih =>
    have hshift (n : Nat) : lineBreaksFrom (offset + n) cs =
        ((lineEnds (bytesOf cs)).map (· + n)).map fun i : Nat => offset + i := by
      rw [ih, List.map_map]
      exact List.map_congr_left fun i _ => by simp; omega
    rw [lineBreaksFrom, lineEnds_bytesOf_cons]
    split
    · exact congrArg₂ List.cons (Int.add_zero offset).symm (hshift 1)
    · exact hshift c.utf8Size

/-- **The table of line breaks** lists the offsets of all bytes that end a line, in ascending
order. -/
theorem lineBreaks_eq (text : String) :
    lineBreaks text = (breakOffsets text).map fun i : Nat => (i : Int) := by
  rw [lineBreaks, lineBreaksFrom_eq, breakOffsets]
  simp only [Int.zero_add]

/-! ### Elements that stand in front -/

section Ascending

variable {α : Type} {p : α → Bool} {l : List α}

/-- If the elements that satisfy a predicate stand in front of the others and the first element is
not one of them, there are none. -/
theorem countP_eq_zero_of_head {a : α} (h : (a :: l).Pairwise fun a b => p b = true → p a = true)
    (ha : p a = false) : (a :: l).countP p = 0 := by
  rw [List.countP_eq_zero]
  intro b hb hpb
  rcases List.mem_cons.1 hb with rfl | hb
  · exact Bool.false_ne_true (ha ▸ hpb)
  · exact Bool.false_ne_true (ha ▸ (List.pairwise_cons.1 h).1 b hb hpb)

/-- Elements that stand in front of the others are met one after the other. -/
theorem length_takeWhile_of_pairwise (h : l.Pairwise fun a b => p b = true → p a = true) :
    (l.takeWhile p).length = l.countP p := by
  induction l with
  | nil => rfl
  | cons a l ih =>
    cases ha : p a with
    | true =>
      rw [List.takeWhile_cons_of_pos ha, List.countP_cons_of_pos ha, List.length_cons,
        ih (List.pairwise_cons.1 h).2]
    | false =>
      rw [List.takeWhile_cons_of_neg (by simp [ha]), countP_eq_zero_of_head h ha]
      rfl

end Ascending

/-- Line breaks below an offset stand in front of the others. -/
theorem pairwise_breakOffsets_below (text : String) (offset : Int) :
    (breakOffsets text).Pairwise fun i j : Nat =>
      decide ((j : Int) < offset) = true → decide ((i : Int) < offset) = true :=
  (pairwise_breakOffsets text).imp fun hij => by simp; omega

/-! ### Lines -/

/-- The line of an offset. A line break belongs to the line that it ends. -/
def lineAt (text : String) (offset : Int) : Nat :=
  ((breakOffsets text).countP fun i : Nat => (i : Int) < offset) + 1

/-- Where the lines start. What is behind the last line break is a line, be it empty. -/
def lineStarts (text : String) : List Nat := 0 :: (breakOffsets text).map (· + 1)

/-- What comes before the lines: nothing before the first one, and a line break before each of the
others. -/
def lineBases (text : String) : List Nat := 0 :: breakOffsets text

theorem exists_lineBases_lineAt (text : String) (offset : Int) :
    ∃ base, (lineBases text)[lineAt text offset - 1]? = some base := by
  have hcount := List.countP_le_length (p := fun i : Nat => (i : Int) < offset)
    (l := breakOffsets text)
  have hlt : lineAt text offset - 1 < (lineBases text).length := by
    rw [lineAt, lineBases, List.length_cons]
    omega
  exact ⟨_, List.getElem?_eq_getElem hlt⟩

/-- A line starts behind the line break before it. -/
theorem lineStarts_getElem? {text : String} {line first : Nat}
    (h : (lineStarts text)[line]? = some first) :
    ∃ base, (lineBases text)[line]? = some base ∧ first = if line = 0 then 0 else base + 1 := by
  cases line with
  | zero => exact ⟨0, rfl, (Option.some.inj h).symm⟩
  | succ n =>
    rw [lineStarts, List.getElem?_cons_succ, List.getElem?_map, Option.map_eq_some_iff] at h
    obtain ⟨base, hbase, rfl⟩ := h
    exact ⟨base, hbase, rfl⟩

/-! ### Columns -/

/-- A line of a text, a column of it and the offset of the line's first byte. Both are counted from
one, and the column is not past the last byte of the line. -/
structure IsColumn (text : String) (line column first : Nat) : Prop where
  one_le_line : 1 ≤ line
  one_le_column : 1 ≤ column
  first_eq : (lineStarts text)[line - 1]? = some first
  le_next : first + column ≤ (lineStarts text)[line]?.getD text.utf8ByteSize

theorem le_of_mem_lineStarts {text : String} {first : Nat} (h : first ∈ lineStarts text) :
    first ≤ text.utf8ByteSize := by
  rw [lineStarts, List.mem_cons, List.mem_map] at h
  rcases h with rfl | ⟨i, hi, rfl⟩
  · exact Nat.zero_le _
  · exact (mem_breakOffsets.1 hi).1

namespace IsColumn

variable {text : String} {line column first : Nat}

theorem le_size (h : IsColumn text line column first) : first + column ≤ text.utf8ByteSize := by
  refine Nat.le_trans h.le_next ?_
  cases hnext : (lineStarts text)[line]? with
  | none => exact Nat.le_refl _
  | some next => exact le_of_mem_lineStarts (List.mem_of_getElem? hnext)

end IsColumn

end HostBridge.Text
