import HostBridge.Annotation.Basic
import HostBridge.Codec.Reference

/-!
# Annotations as JSON

An annotation is written with the kind of its value in front.
-/

namespace HostBridge

/-- The fields of a text with its place. -/
def StringLiteral.members (l : StringLiteral) : List (String × Json) :=
  [("value", .text l.value), ("source_start", .integer l.start), ("source_end", .integer l.stop)]

def MemberValue.toJson : MemberValue → Json
  | classLiteral stop type =>
    .object
      [("kind", .text "class_literal"), ("source_end", .integer stop), ("type_ref", type.toJson)]
  | stringLiteral l => .object (("kind", .text "string_literal") :: l.members)
  | arrayInitializer elements =>
    .object [("kind", .text "array_initializer"),
      ("elements", .ofList (fun l => .object l.members) elements)]

def Annotation.toJson (a : Annotation) : Json :=
  let kind : Json := match a.value with
    | none => .object [("kind", .text "marker")]
    | some value => .object [("kind", .text "single_member"), ("value", value.toJson)]
  .object [("kind", kind), ("type_ref", a.type.toJson), ("source_start", .integer a.start),
    ("declaration_source_end", .integer a.declarationStop)]

end HostBridge
