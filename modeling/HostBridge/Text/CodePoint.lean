/-!
# Code points

A text with escapes is a list of code points. A character from U+10000 up may be escaped in two
halves, a high surrogate and the low one right after it, which stand for one code point together. A
half without its partner is no character.
-/

namespace HostBridge.Text

/-- Whether the code point is the first half of a pair. -/
def isHighSurrogate (n : Nat) : Bool := 0xD800 ≤ n && n < 0xDC00

/-- Whether the code point is the second half of a pair. -/
def isLowSurrogate (n : Nat) : Bool := 0xDC00 ≤ n && n < 0xE000

/-- The code point that two halves stand for. -/
def joinSurrogates (high low : Nat) : Nat := 0x10000 + (high - 0xD800) * 0x400 + (low - 0xDC00)

/-- Puts an escaped code point in front of those that stand before it in the text, the last one
first. The second half of a pair completes a first half just before it. -/
def consEscaped (n : Nat) : List Nat → List Nat
  | [] => [n]
  | m :: ms =>
    if isHighSurrogate m && isLowSurrogate n then joinSurrogates m n :: ms else n :: m :: ms

/-- The character of a code point. Half of a pair is none. -/
def char? (n : Nat) : Option Char := if n.isValidChar then some (Char.ofNat n) else none

/-- The text of some code points, if each of them is a character. -/
def ofCodePoints? (ns : List Nat) : Option String := (ns.mapM char?).map String.ofList

theorem char?_toNat (c : Char) : char? c.toNat = some c := by
  have h : c.toNat.isValidChar := c.valid
  simp [char?, h]

theorem ofCodePoints?_toList (s : String) : ofCodePoints? (s.toList.map Char.toNat) = some s := by
  have h : (s.toList.map Char.toNat).mapM char? = some s.toList := by
    induction s.toList with
    | nil => rfl
    | cons c cs ih => simp [List.mapM_cons, char?_toNat, ih]
  simp [ofCodePoints?, h]

end HostBridge.Text
