import HostBridge.Position
import HostBridge.TypeReference.Primitive

/-!
# Type references

The host refers to a type by a reference of one of a few shapes: plain or qualified, with or without
type arguments, an array, a primitive type, or a wildcard among type arguments. A reference also has
a range in its file and some marks.

* `TypeReference.typeName` — the name of the type, without type arguments;
* `TypeReference.text` — the name with the type arguments of the last segment.
-/

namespace HostBridge

/-- The marks of a type reference. -/
structure ReferenceFlags where
  /-- The type of a parameter that takes a variable number of arguments. -/
  varArgs : Bool := false
  /-- A bound of a type parameter after the first one. -/
  superType : Bool := false
  /-- A raw use that is not to be reported. -/
  ignoreRawTypeCheck : Bool := false
deriving DecidableEq, Repr, Inhabited

mutual

structure TypeReference where
  /-- What the reference is made of. -/
  shape : TypeShape
  start : Int
  /-- The offset of the last byte. -/
  stop : Int
  flags : ReferenceFlags

/-- What a reference is made of. The host keeps the kind of a wildcard and its bound apart, but only
three pairs of them are ever made, in the three cases of `TypeReference.buildArgument`: a wildcard
that is free has no bound, and one that is bounded from above or from below comes with its bound. So
each of the three pairs is a shape of its own. -/
inductive TypeShape where
  /-- A wildcard without a bound. -/
  | wildcard
  /-- A wildcard that stands for subtypes of its bound. -/
  | wildcardExtends (bound : TypeReference)
  /-- A wildcard that stands for supertypes of its bound. -/
  | wildcardSuper (bound : TypeReference)
  /-- A primitive type, or an array of one. -/
  | base (type : Primitive) (dimensions : Nat)
  | single (token : String) (position : Position)
  /-- A simple name with type arguments. -/
  | parameterizedSingle (token : String) (position : Position) (arguments : List TypeReference)
  | qualified (tokens : List String) (positions : List Position)
  /-- A qualified name with type arguments, which are held for each segment. -/
  | parameterizedQualified (tokens : List String) (positions : List Position)
      (arguments : List (Option (List TypeReference)))
  /-- An array of a simple name. `elementStop` is where the name would end if it were written like
  its class. -/
  | array (token : String) (dimensions : Nat) (position : Position) (elementStop : Int)
  /-- An array of a qualified name. -/
  | arrayQualified (tokens : List String) (dimensions : Nat) (positions : List Position)

end

instance : Inhabited TypeShape := ⟨.wildcard⟩

instance : Inhabited TypeReference := ⟨⟨.wildcard, 0, 0, {}⟩⟩

namespace TypeReference

/-- A reference that covers a position. -/
def covering (shape : TypeShape) (p : Position) : TypeReference := ⟨shape, p.start, p.stop, {}⟩

/-- A reference that reaches from the first to the last of some positions. -/
def reaching (shape : TypeShape) (positions : List Position) : TypeReference :=
  ⟨shape, Position.firstStart positions, Position.lastStop positions, {}⟩

/-- A reference to a primitive type, or to an array of one, which has no place in the file. -/
def base (type : Primitive) (dimensions : Nat) : TypeReference := ⟨.base type dimensions, 0, 0, {}⟩

def ignoringRawTypes (r : TypeReference) (ignore : Bool) : TypeReference :=
  { r with flags.ignoreRawTypeCheck := ignore }

def asSuperType (r : TypeReference) : TypeReference := { r with flags.superType := true }

def asVarArgs (r : TypeReference) : TypeReference := { r with flags.varArgs := true }

def withRange (r : TypeReference) (start stop : Int) : TypeReference := { r with start, stop }

end TypeReference

/-! ### Dimensions -/

/-- The number of dimensions of an array, or zero. -/
def TypeShape.dimensions : TypeShape → Nat
  | base _ dimensions | array _ dimensions _ _ | arrayQualified _ dimensions _ => dimensions
  | _ => 0

namespace TypeReference

/-- The number of dimensions of an array, or zero. -/
def dimensions (r : TypeReference) : Nat := r.shape.dimensions

def isArray (r : TypeReference) : Bool := 0 < r.dimensions

end TypeReference

/-- A pair of brackets for each dimension. -/
def brackets (dimensions : Nat) : String := String.join (List.replicate dimensions "[]")

/-! ### Printed names -/

mutual

def TypeReference.typeName : TypeReference → String
  | ⟨shape, _, _, _⟩ => shape.typeName

def TypeShape.typeName : TypeShape → String
  | .wildcard => "?"
  | .wildcardExtends bound => "? extends " ++ bound.typeName
  | .wildcardSuper bound => "? super " ++ bound.typeName
  | .base type dimensions => type.keyword ++ brackets dimensions
  | .single token _ | .parameterizedSingle token _ _ => token
  | .array token dimensions _ _ => token ++ brackets dimensions
  | .qualified tokens _ | .parameterizedQualified tokens _ _ => Dotted.join tokens
  | .arrayQualified tokens dimensions _ => Dotted.join tokens ++ brackets dimensions

end

mutual

def TypeReference.text : TypeReference → String
  | ⟨shape, _, _, _⟩ => shape.typeName ++ shape.argumentText

/-- The type arguments of a shape between angle brackets, if it has any. -/
def TypeShape.argumentText : TypeShape → String
  | .parameterizedSingle _ _ arguments =>
    "<" ++ ", ".intercalate (TypeReference.texts arguments) ++ ">"
  | .parameterizedQualified _ _ arguments => TypeReference.lastText arguments
  | _ => ""

/-- The texts of some references. -/
def TypeReference.texts : List TypeReference → List String
  | [] => []
  | r :: rs => r.text :: TypeReference.texts rs

/-- The type arguments of the last segment between angle brackets, if it has any. -/
def TypeReference.lastText : List (Option (List TypeReference)) → String
  | [] => ""
  | [none] => ""
  | [some arguments] => "<" ++ ", ".intercalate (TypeReference.texts arguments) ++ ">"
  | _ :: rest => TypeReference.lastText rest

end

end HostBridge
