import HostBridge.Source.Class

/-!
# Shapes of annotations

Of the ways to write an annotation the host understands a few. A member value counts only if it is
that of the single member `value`:

* a class literal `X.class`;
* a bare name in an annotation whose name ends in `RunWith`, which stands for the class of that
  name;
* a text, or a list of nothing but texts, in `SuppressWarnings`.

An annotation without members is a marker, and so is one named `Test` whatever its members are. All
others are not supported.
-/

namespace HostBridge

/-- How an annotation is carried over. -/
inductive AnnotationShape where
  | marker
  | classLiteral (object : Source.Expression) (stop : Int)
  /-- A bare name that stands for a class, up to the offset where it ends. -/
  | identifierAsClass (name : String) (stop : Int)
  | stringLiteral (value : String) (start stop : Int)
  | stringList (elements : List (String × Int × Int))
  /-- A test annotation, whose members are dropped. -/
  | testMarker
  | unsupported
deriving Inhabited

namespace AnnotationShape

def textConstant? : Source.Expression → Option (String × Int × Int)
  | .constant (.text value) start stop => some (value, start, stop)
  | _ => none

/-- The shape that a value of the single member gives to an annotation of that name. -/
def ofValue? (annotationName : String) : Source.Expression → Option AnnotationShape
  | .property object name _ stop =>
    if name = "class" then some (.classLiteral object stop) else none
  | .identifier name _ stop =>
    if "RunWith".toList.isSuffixOf annotationName.toList then some (.identifierAsClass name stop)
    else none
  | .constant value start stop =>
    match value with
    | .text text =>
      if annotationName = "SuppressWarnings" then some (.stringLiteral text start stop) else none
    | _ => none
  | .list elements _ _ =>
    if annotationName = "SuppressWarnings" then (elements.mapM textConstant?).map .stringList
    else none
  | .other _ _ => none

/-- The shape of an annotation by its single member `value`, if it has just that one. -/
def ofSingleValue? (a : Source.AnnotationUse) : Option AnnotationShape :=
  match a.members with
  | [m] => if m.name = "value" then ofValue? a.type.name m.value else none
  | _ => none

def classify (a : Source.AnnotationUse) : AnnotationShape :=
  if a.members.isEmpty then .marker
  else
    match ofSingleValue? a with
    | some shape => shape
    | none => if a.type.simpleName = "Test" then .testMarker else .unsupported

end AnnotationShape

end HostBridge
