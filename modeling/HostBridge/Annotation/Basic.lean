import HostBridge.TypeReference.Equality

/-!
# Annotations

The host keeps an annotation as a marker, or with the value of its single member, which is the
class, the text or the list of texts that was given.
-/

namespace HostBridge

/-- A text with its place in the file. -/
structure StringLiteral where
  value : String
  start : Int
  /-- The offset of the last byte. -/
  stop : Int
deriving DecidableEq, Repr, Inhabited

/-- The value of the single member of an annotation. -/
inductive MemberValue where
  /-- A class, up to the offset where its expression ends. -/
  | classLiteral (stop : Int) (type : TypeReference)
  | stringLiteral (literal : StringLiteral)
  | arrayInitializer (elements : List StringLiteral)
deriving DecidableEq, Inhabited

structure Annotation where
  /-- The value of its member; a marker has none. -/
  value : Option MemberValue
  type : TypeReference
  start : Int
  /-- Where the annotation ends. -/
  declarationStop : Int
deriving DecidableEq, Inhabited

end HostBridge
