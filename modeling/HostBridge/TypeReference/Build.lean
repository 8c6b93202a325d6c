import HostBridge.Fault
import HostBridge.Options
import HostBridge.TypeReference.Basic
import HostBridge.TypeReference.Signature

/-!
# Building type references

A descriptor of the front end becomes a type reference of the host. The type arguments are built
first, in order, so their faults come before those of the descriptor itself. Then the name alone
decides the shape, `TypeReference.ofName`: a wildcard, an array signature, a primitive type, a
simple name or a qualified name.

A type argument that is a type variable is left out.
-/

namespace HostBridge

namespace TypeReference

/-- Whether the range of a reference is impossible: it ends before it starts, or it starts at `-1`
and is not the range of a node without text. -/
def hasMalformedRange (r : TypeReference) : Bool :=
  if r.start = -1 then r.stop ≠ -2 else r.stop < r.start

/-- The array that a signature names, written from `start` up to `stop`. -/
def ofSignature (signature : String) (start stop : Int) : Except Fault TypeReference :=
  match ArraySignature.ofText? signature with
  | none => .error (.malformedSignature signature)
  | some ⟨dimensions, .primitive type⟩ => .ok (base type dimensions)
  | some ⟨dimensions, .named className⟩ =>
    if '.' ∈ className.toList then
      let tokens := Dotted.split className
      -- in the file each dimension is a pair of brackets behind the name
      let positions := Position.layout tokens start (stop - 2 * dimensions)
      let r := reaching (.arrayQualified tokens dimensions positions) positions
      .ok (r.withRange r.start (stop - 1))
    else
      let position := Position.spanning start (stop - 1)
      let elementStop := position.start + className.utf8ByteSize - 1
      .ok (covering (.array className dimensions position elementStop) position)

/-- The reference for a simple name written from `start` up to `stop`. -/
def ofSimpleName (o : Options) (name : String) (start stop : Int) (arguments : List TypeReference) :
    Except Fault TypeReference :=
  let position := Position.spanning start (stop - 1)
  if arguments.isEmpty then
    let r := covering (.single name position) position
    if o.checkTypeReferences && r.hasMalformedRange then
      .error (.malformedTypeReference name r.start r.stop)
    else .ok (r.ignoringRawTypes !o.checkGenerics)
  else .ok (covering (.parameterizedSingle name position arguments) position)

/-- The reference for a qualified name written from `start` up to `stop`. -/
def ofQualifiedName (o : Options) (name : String) (start stop : Int)
    (arguments : List TypeReference) : TypeReference :=
  let tokens := Dotted.split name
  let positions := Position.layout tokens start stop
  if arguments.isEmpty then
    (reaching (.qualified tokens positions) positions).ignoringRawTypes !o.checkGenerics
  else
    let perSegment := List.replicate (tokens.length - 1) none ++ [some arguments]
    reaching (.parameterizedQualified tokens positions perSegment) positions

/-- The reference for a name written from `start` up to `stop`, with type arguments that have been
built. Wildcards, arrays and primitive types have no use for them. -/
def ofName (o : Options) (name : String) (start stop : Int) (arguments : List TypeReference) :
    Except Fault TypeReference :=
  if name = "?" then .ok ⟨.wildcard, 0, 0, {}⟩
  else if name.toList.head? = some '[' then ofSignature name start stop
  else
    match Primitive.ofKeyword? name with
    | some type => .ok (base type 0)
    | none =>
      if '.' ∈ name.toList then .ok (ofQualifiedName o name start stop arguments)
      else ofSimpleName o name start stop arguments

/-- A wildcard with a bound, from its own start to the end of the bound. -/
def boundedWildcard (shape : TypeReference → TypeShape) (start : Int) (bound : TypeReference) :
    TypeReference :=
  ⟨shape bound, start, bound.stop, {}⟩

mutual

/-- The reference that a descriptor describes. -/
def build (o : Options) : Source.Descriptor → Except Fault TypeReference
  | ⟨name, start, stop, generics, _⟩ => do
    let arguments ← buildArguments o generics
    ofName o name (max start 0) (max stop 0) arguments

/-- The type arguments that some entries describe, without the type variables among them. -/
def buildArguments (o : Options) : List Source.Generic → Except Fault (List TypeReference)
  | [] => .ok []
  | g :: gs => do
    let argument ← buildArgument o g
    let rest ← buildArguments o gs
    return argument.toList ++ rest

/-- The type argument that an entry describes, or nothing for a type variable. Of the bounds of a
wildcard from above only the first one counts, and it wins over a bound from below. -/
def buildArgument (o : Options) : Source.Generic → Except Fault (Option TypeReference)
  | ⟨_, _, true, some (upper :: _), _, start, _⟩ => do
    return some (boundedWildcard .wildcardExtends start (← build o upper))
  | ⟨_, _, true, _, some lower, start, _⟩ => do
    return some (boundedWildcard .wildcardSuper start (← build o lower))
  | ⟨_, _, true, _, none, start, _⟩ => .ok (some ⟨.wildcard, start, start, {}⟩)
  | ⟨_, type, false, _, _, _, _⟩ =>
    if type.placeholder then .ok none else do return some (← build o type)

end

end TypeReference

end HostBridge
