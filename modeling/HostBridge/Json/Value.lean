/-!
# JSON values

A recorded build is read from JSON, and declaration trees are written as JSON. An object keeps its
members in the order in which they are written, because the order of the keys in a written tree is
part of its form.

A number written with a fraction or an exponent is kept apart from an integer, `Json.decimal`, since
no quantity of this library is one.

A text may follow the grammar and have parts that cannot be held, `Json.unreadable`. Such a part
does no harm where it is ignored, and is refused where it is decoded.
-/

namespace HostBridge

inductive Json where
  | null
  | bool (value : Bool)
  /-- A number without fraction and exponent. -/
  | integer (value : Int)
  /-- Any other number, as it is written. -/
  | decimal (digits : String)
  | text (value : String)
  | array (elements : List Json)
  /-- Named values, in the order in which they are written. -/
  | object (members : List (String × Json))
  /-- What is written as the grammar demands and cannot be held: a text with half of a surrogate
  pair, an object in which a name is such a text, a number that is too large, or a container inside
  too many others. -/
  | unreadable
deriving Inhabited

namespace Json

/-- A value that may be absent. -/
def ofOption {α : Type} (write : α → Json) : Option α → Json
  | none => null
  | some a => write a

def ofList {α : Type} (write : α → Json) (as : List α) : Json := array (as.map write)

def ofTexts (texts : List String) : Json := ofList text texts

def ofNat (n : Nat) : Json := integer n

/-! ### Taking values apart

What is taken out of a value is smaller than the value, which is why decoding a nested value ends.
-/

abbrev Part (j : Json) := { x : Json // sizeOf x < sizeOf j }

/-- The values that another one consists of. -/
inductive Contents (j : Json) where
  | named (members : List (String × Part j))
  | ordered (elements : List (Part j))

/-- The contents of an object or a list. -/
def contents? : (j : Json) → Option (Contents j)
  | object members => some <| .named <| members.attach.map fun ⟨(name, x), h⟩ =>
      (name, ⟨x, by
        have := List.sizeOf_lt_of_mem h
        simp only [Prod.mk.sizeOf_spec] at this
        simp only [object.sizeOf_spec]
        omega⟩)
  | array elements => some <| .ordered <| elements.attach.map fun ⟨x, h⟩ =>
      ⟨x, by have := List.sizeOf_lt_of_mem h; simp only [array.sizeOf_spec]; omega⟩
  | _ => none

/-- The elements of a list. -/
def elements? (j : Json) : Option (List (Part j)) :=
  match j.contents? with
  | some (.ordered elements) => some elements
  | _ => none

/-! ### Unreadable parts -/

mutual

/-- Whether a value has no unreadable part. -/
def isReadable : Json → Bool
  | array elements => areReadable elements
  | object members => areMembersReadable members
  | unreadable => false
  | _ => true

/-- Whether some values have no unreadable part. -/
def areReadable : List Json → Bool
  | [] => true
  | x :: xs => x.isReadable && areReadable xs

/-- Whether the values of some members have no unreadable part. -/
def areMembersReadable : List (String × Json) → Bool
  | [] => true
  | (_, x) :: ms => x.isReadable && areMembersReadable ms

end

end Json

end HostBridge
