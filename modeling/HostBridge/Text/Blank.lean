/-!
# Blank characters and trimming

A character is blank when it has the Unicode property `White_Space`. Texts are trimmed as lists of
characters, at either end or at both, so that what is cut off and what remains can be stated by
list equations.

* `dropTrailing_append` — a list is what `dropTrailing p` leaves, followed by elements that
  satisfy `p`;
* `trimEnd_isBlank_getLast` — a text trimmed at its end does not end in a blank.
-/

namespace HostBridge.Text

/-- Whether the character has the Unicode property `White_Space`. -/
def isBlank (c : Char) : Bool :=
  let n := c.toNat
  (9 ≤ n && n ≤ 13) || n == 0x20 || n == 0x85 || n == 0xA0 || n == 0x1680 ||
    (0x2000 ≤ n && n ≤ 0x200A) || n == 0x2028 || n == 0x2029 || n == 0x202F || n == 0x205F ||
    n == 0x3000

/-! ### Dropping a run of elements at the end -/

/-- The list without the longest run of elements satisfying `p` at its end. -/
def dropTrailing {α : Type} (p : α → Bool) (l : List α) : List α :=
  (l.reverse.dropWhile p).reverse

/-- The longest run of elements satisfying `p` at the end of the list. -/
def takeTrailing {α : Type} (p : α → Bool) (l : List α) : List α :=
  (l.reverse.takeWhile p).reverse

@[simp] theorem dropTrailing_nil {α : Type} (p : α → Bool) : dropTrailing p [] = [] := rfl

theorem dropTrailing_append {α : Type} (p : α → Bool) (l : List α) :
    dropTrailing p l ++ takeTrailing p l = l := by
  rw [dropTrailing, takeTrailing, ← List.reverse_append, List.takeWhile_append_dropWhile,
    List.reverse_reverse]

theorem dropTrailing_getLast {α : Type} (p : α → Bool) (l : List α) (h : dropTrailing p l ≠ []) :
    p ((dropTrailing p l).getLast h) = false := by
  simp only [dropTrailing, List.getLast_reverse]
  have h' : l.reverse.dropWhile p ≠ [] := by
    intro he; apply h; simp [dropTrailing, he]
  have := List.head_dropWhile_not p h'
  simpa using this

/-! ### Trimming -/

/-- The text without the blanks at its start. -/
def trimStart (cs : List Char) : List Char := cs.dropWhile isBlank

/-- The text without the blanks at its end. -/
def trimEnd (cs : List Char) : List Char := dropTrailing isBlank cs

/-- The text without the blanks at either end. -/
def trim (cs : List Char) : List Char := trimEnd (trimStart cs)

theorem trimEnd_isBlank_getLast (cs : List Char) (h : trimEnd cs ≠ []) :
    isBlank ((trimEnd cs).getLast h) = false :=
  dropTrailing_getLast isBlank cs h

end HostBridge.Text
