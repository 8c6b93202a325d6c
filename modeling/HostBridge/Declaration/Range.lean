import HostBridge.Source.Module

/-!
# Ranges of declarations

The front end records the extent of a node and of its name. The host wants more: the extent with the
documentation above the node, and where modifiers and body start. All of these follow from the span
of the node and the documentation comment found above its line.

* `findJavadoc` — the documentation of a line;
* `DeclarationRange.ofType`, `DeclarationRange.ofMethod`, `FieldExtent.ofField` — the ranges of the
  kinds of declarations.
-/

namespace HostBridge

/-- A documentation comment, by its first and its last offset. -/
structure Javadoc where
  start : Int
  /-- The offset of the last byte. -/
  stop : Int
deriving DecidableEq, Repr, Inhabited

/-- The documentation of a line: the first documentation comment of the file that ends on one of the
two lines above, even if a later one is closer. -/
def findJavadoc (comments : List Source.Comment) (line : Int) : Option Javadoc :=
  (comments.find? fun c =>
    c.isJavadoc && (c.lastLine + 1 == line || c.lastLine + 2 == line)).map
      fun c => ⟨c.start, c.stop⟩

structure DeclarationRange where
  start : Int := 0
  stop : Int := 0
  /-- The first offset of the declaration with its documentation. -/
  declarationStart : Int := 0
  /-- The last offset of the declaration. -/
  declarationStop : Int := 0
  modifiersStart : Int := 0
  bodyStart : Int := 0
  bodyStop : Int := 0
deriving DecidableEq, Repr, Inhabited

/-- Where a declaration starts: at its documentation, or else at the node itself. -/
def declarationStart (span : Source.Span) (javadoc : Option Javadoc) : Int :=
  (javadoc.map (·.start)).getD span.start

namespace DeclarationRange

/-- The ranges of a declaration with a body. A name that is not recorded is taken to be at the start
of the node. -/
def withBody (span : Source.Span) (javadoc : Option Javadoc) (declarationStop : Int) :
    DeclarationRange where
  start := max span.nameStart span.start
  stop := max span.nameStop span.start
  declarationStart := HostBridge.declarationStart span javadoc
  declarationStop := declarationStop
  modifiersStart := span.start
  bodyStart := max span.nameStop span.start
  bodyStop := span.stop

/-- The ranges of a type. A type ends one byte early, so that the host never asks for text past the
end of the file. -/
def ofType (span : Source.Span) (javadoc : Option Javadoc) : DeclarationRange :=
  withBody span javadoc (span.stop - 1)

def ofMethod (span : Source.Span) (javadoc : Option Javadoc) : DeclarationRange :=
  withBody span javadoc span.stop

end DeclarationRange

/-- The ranges of a field, which may share its type with other fields. -/
structure FieldExtent where
  range : DeclarationRange
  /-- The end of the whole declaration. -/
  declarationEnd : Int
  typeEnd : Int
  /-- The end of this field's part. -/
  partEnd : Int
deriving DecidableEq, Repr, Inhabited

def FieldExtent.ofField (span : Source.Span) (javadoc : Option Javadoc) : FieldExtent where
  range :=
    { start := span.nameStart, stop := span.nameStop
      declarationStart := HostBridge.declarationStart span javadoc
      declarationStop := span.stop, modifiersStart := span.start }
  declarationEnd := span.stop
  typeEnd := span.nameStart
  partEnd := span.stop

end HostBridge
