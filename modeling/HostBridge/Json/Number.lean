import HostBridge.Json.Value

/-!
# Numbers

A number has digits, and may have a sign, a point with more digits, and an exponent. One without
point and exponent is an integer of any size, with one exception: a zero with a sign.

What matters of the other numbers is whether a double can hold them. A number is
`significand * 10 ^ exponent`, where the significand has 64 bits and the digits that do not fit
count by their place only. Both factors are rounded to doubles, then their product is; the number is
too large if that leaves the range.
-/

namespace HostBridge.Json

/-! ### Numbers as they are written -/

/-- A number as it is written. -/
structure Numeral where
  negative : Bool
  whole : List Char
  /-- The digits after the point, if there is one. -/
  fraction : Option (List Char) := none
  exponent : Option Int := none

/-- The value of a digit. -/
def digitValue (c : Char) : Nat := c.toNat - '0'.toNat

/-- The number that some digits write. -/
def ofDigits (ds : List Char) : Nat := ds.foldl (fun n c => 10 * n + digitValue c) 0

/-- The number that the characters write, if they are digits and there is at least one. -/
def digits? (cs : List Char) : Option Nat :=
  if !cs.isEmpty && cs.all Char.isDigit then some (ofDigits cs) else none

/-- The exponent that the characters write: its letter, a sign or none, and digits. -/
def exponent? : List Char → Option Int
  | c :: cs =>
    if c = 'e' ∨ c = 'E' then
      match cs with
      | '+' :: cs => (digits? cs).map fun n => n
      | '-' :: cs => (digits? cs).map fun n => -n
      | cs => (digits? cs).map fun n => n
    else none
  | [] => none

namespace Numeral

/-- Reads the characters of a number. The digits before the point start with a zero only if it is
the only one. -/
def ofChars? (cs : List Char) : Option Numeral := do
  let (negative, unsigned) := match cs with
    | '-' :: rest => (true, rest)
    | _ => (false, cs)
  let whole := unsigned.takeWhile Char.isDigit
  let rest := unsigned.dropWhile Char.isDigit
  if whole.isEmpty || (whole.head? = some '0' && whole.length > 1) then failure
  let (fraction, rest) := match rest with
    | '.' :: rest => (some (rest.takeWhile Char.isDigit), rest.dropWhile Char.isDigit)
    | _ => (none, rest)
  if fraction.any List.isEmpty then failure
  if rest.isEmpty then return { negative, whole, fraction }
  return { negative, whole, fraction, exponent := ← exponent? rest }

/-- Whether the number is an integer. A zero with a sign is not. -/
def isInteger (n : Numeral) : Bool :=
  n.fraction.isNone && n.exponent.isNone && !(n.negative && n.whole = ['0'])

/-- The integer that the digits before the point and the sign write. -/
def integerPart (n : Numeral) : Int := if n.negative then -(ofDigits n.whole) else ofDigits n.whole

end Numeral

/-! ### The range of doubles -/

/-- Appends digits to a significand while it has 64 bits, and tells which digits are left. -/
def appendDigits (significand : Nat) : List Char → Nat × List Char
  | [] => (significand, [])
  | c :: cs =>
    let longer := 10 * significand + digitValue c
    if longer < 0x10000000000000000 then appendDigits longer cs else (significand, c :: cs)

/-- The significand and the power of ten of a number without its sign. -/
def Numeral.scaled (n : Numeral) : Nat × Int :=
  let (significand, dropped) := appendDigits 0 n.whole
  let fraction := n.fraction.getD []
  let (significand, ignored) := appendDigits significand fraction
  (significand, dropped.length - (fraction.length - ignored.length : Nat) + n.exponent.getD 0)

/-- The nearest number with at most 53 significant bits. Halfway between two of them, the even one
is taken. -/
def roundToDouble (n : Nat) : Nat :=
  let unit := Nat.shiftLeft 1 (n.log2 - 52)
  let down := n / unit
  let rest := n % unit
  unit * if 2 * rest < unit ∨ (2 * rest = unit ∧ down % 2 = 0) then down else down + 1

/-- The least number that is not rounded into the range of doubles: halfway from the greatest of
them to what would be the next one. -/
def doubleLimit : Nat := Nat.shiftLeft 0x3fffffffffffff 970

/-- The greatest power of ten that is a double. -/
def maxPowerOfTen : Nat := 308

/-- Whether a double cannot hold the number because it is too large. -/
def Numeral.isTooLarge (n : Numeral) : Bool :=
  let (significand, exponent) := n.scaled
  significand ≠ 0 && 0 ≤ exponent &&
    (maxPowerOfTen < exponent ||
      doubleLimit ≤ roundToDouble significand * roundToDouble (Nat.pow 10 exponent.toNat))

/-- Numbers of up to 53 bits are doubles. -/
theorem roundToDouble_of_lt {n : Nat} (h : n < 0x20000000000000) : roundToDouble n = n := by
  have hl : n.log2 - 52 = 0 := by
    by_cases h0 : n = 0
    · subst h0; decide
    · have : n.log2 < 53 := (Nat.log2_lt h0).mpr h
      omega
  simp [roundToDouble, hl, Nat.mod_one]

/-! ### Values -/

/-- The value that the characters of a number write. -/
def number? (cs : List Char) : Option Json :=
  (Numeral.ofChars? cs).map fun n =>
    if n.isTooLarge then unreadable
    else if n.isInteger then integer n.integerPart
    else decimal (String.ofList cs)

end HostBridge.Json
