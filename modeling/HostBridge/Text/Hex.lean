/-!
# Hexadecimal digits

Digits of base sixteen, read in either case and written in lower case.
-/

namespace HostBridge.Text

/-- The value of a hexadecimal digit of either case. -/
def hexDigit? (c : Char) : Option Nat :=
  if '0' ≤ c ∧ c ≤ '9' then some (c.toNat - '0'.toNat)
  else if 'a' ≤ c ∧ c ≤ 'f' then some (c.toNat - 'a'.toNat + 10)
  else if 'A' ≤ c ∧ c ≤ 'F' then some (c.toNat - 'A'.toNat + 10)
  else none

/-- The digits of a number, in lower case and without zeros in front. -/
def hexDigits (n : Nat) : String := String.ofList (Nat.toDigits 16 n)

end HostBridge.Text
