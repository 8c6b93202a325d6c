import HostBridge.TypeReference.Primitive

/-!
# Array signatures

Class files name an array type by a signature: an opening bracket for each dimension, then the
element, which is the letter of a primitive type, or the name of a class between `L` and `;`.
-/

namespace HostBridge

/-- What an array type holds in its innermost dimension. -/
inductive ArrayElement where
  | primitive (type : Primitive)
  | named (className : String)
deriving DecidableEq, Repr, Inhabited

/-- The parts of an array signature. -/
structure ArraySignature where
  dimensions : Nat
  element : ArrayElement
deriving DecidableEq, Repr, Inhabited

/-- Reads what follows the brackets of a signature. -/
def ArrayElement.ofChars? : List Char → Option ArrayElement
  | [c] => (Primitive.ofLetter? c).map .primitive
  | 'L' :: body =>
    if body.getLast? = some ';' ∧ body.dropLast ≠ [] then
      some (.named (String.ofList body.dropLast))
    else none
  | _ => none

/-- Reads a signature. -/
def ArraySignature.ofText? (signature : String) : Option ArraySignature :=
  let cs := signature.toList
  (ArrayElement.ofChars? (cs.dropWhile (· == '['))).map
    (ArraySignature.mk (cs.takeWhile (· == '[')).length)

end HostBridge
