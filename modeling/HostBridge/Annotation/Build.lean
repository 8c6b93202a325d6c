import HostBridge.Annotation.Basic
import HostBridge.Annotation.Shape
import HostBridge.TypeReference.Build

/-!
# Building annotations

The annotations of a declaration are built by their shapes, in order. Those of an unsupported shape
are dropped before anything about them is built, so they cause no fault.
-/

namespace HostBridge

/-- The reference for a class written as a chain of names from `start` up to `stop`. No names stand
for no type. -/
def TypeReference.ofChain (tokens : List String) (start stop : Int) : TypeReference :=
  let positions := Position.layout tokens start stop
  match tokens with
  | [] => .base .void 0
  | [token] =>
    let position := positions.headD .nonExistent
    .covering (.single token position) position
  | _ => .reaching (.qualified tokens positions) positions

/-- The reference for a bare name that stands for a class in an annotation which reaches from
`start` to `stop`. -/
def TypeReference.ofIdentifier (name : String) (start stop : Int) : TypeReference :=
  if '.' ∈ name.toList then
    let tokens := Dotted.split name
    let positions := Position.layout tokens start (stop - 2)
    .reaching (.qualified tokens positions) positions
  else
    let position := Position.spanning start (stop - 1)
    .covering (.single name position) position

namespace Annotation

/-- The offset where an annotation with a text ends for the host. A text with a dot counts with the
qualified name of the annotation, any other with the simple name. -/
def textStop (a : Source.AnnotationUse) (text : String) : Int :=
  let name := if '.' ∈ text.toList then a.type.name else a.type.simpleName
  a.start + name.utf8ByteSize - 1

/-- A text of an annotation for the host, with the offset of its last byte. -/
def literal (element : String × Int × Int) : StringLiteral :=
  ⟨element.1, element.2.1, element.2.2 - 1⟩

/-- The annotation of the host for one as written; nothing comes of an unsupported one. -/
def build (o : Options) (a : Source.AnnotationUse) : Except Fault (Option Annotation) :=
  let withType (stop : Int) (rest : TypeReference → Annotation) :
      Except Fault (Option Annotation) := do
    let type ← TypeReference.build o a.type
    return some (rest (type.withRange a.start stop))
  let classStop := a.start + a.type.simpleName.utf8ByteSize
  match AnnotationShape.classify a with
  | .marker | .testMarker => withType a.stop fun type => ⟨none, type, a.start, a.stop⟩
  | .classLiteral object stop => withType a.stop fun type =>
    let value := .classLiteral stop (.ofChain object.chain object.start object.stop)
    ⟨some value, type, a.start, classStop⟩
  | .identifierAsClass name stop => withType a.stop fun type =>
    ⟨some (.classLiteral stop (.ofIdentifier name type.start type.stop)), type, a.start, classStop⟩
  | .stringLiteral value start stop => withType (a.stop - 1) fun type =>
    ⟨some (.stringLiteral (literal (value, start, stop))), type, a.start, textStop a value⟩
  | .stringList elements => withType (a.stop - 1) fun type =>
    let declarationStop :=
      (elements.getLast?.map fun element => textStop a element.1).getD type.stop
    ⟨some (.arrayInitializer (elements.map literal)), type, a.start, declarationStop⟩
  | .unsupported => .ok none

/-- Builds the annotations of a declaration. -/
def buildAll (o : Options) : List Source.AnnotationUse → Except Fault (List Annotation)
  | [] => .ok []
  | a :: as => do
    let annotation ← build o a
    let rest ← buildAll o as
    return annotation.toList ++ rest

end Annotation

end HostBridge
