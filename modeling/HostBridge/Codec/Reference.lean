import HostBridge.Json.Value
import HostBridge.TypeReference.Basic

/-!
# Type references as JSON

The fields of the shape stand beside those of the reference, in a fixed order: the kind, the fields
of the shape, the range and the marks.
-/

namespace HostBridge

def Position.toJson (p : Position) : Json := .integer p.pack.toInt

def ReferenceFlags.toJson (f : ReferenceFlags) : Json :=
  .object [("var_args", .bool f.varArgs), ("super_type", .bool f.superType),
    ("ignore_raw_type_check", .bool f.ignoreRawTypeCheck)]

mutual

def TypeReference.toJson : TypeReference → Json
  | ⟨shape, start, stop, flags⟩ =>
    .object (shape.members ++
      [("source_start", .integer start), ("source_end", .integer stop), ("flags", flags.toJson)])

/-- The fields of a shape, with its kind first. -/
def TypeShape.members : TypeShape → List (String × Json)
  | .wildcard => [("kind", .text "wildcard"), ("wildcard", .text "unbound"), ("bound", .null)]
  | .wildcardExtends bound =>
    [("kind", .text "wildcard"), ("wildcard", .text "extends"), ("bound", bound.toJson)]
  | .wildcardSuper bound =>
    [("kind", .text "wildcard"), ("wildcard", .text "super"), ("bound", bound.toJson)]
  | .base type dimensions =>
    [("kind", .text "base_type"), ("primitive", .text type.keyword),
      ("dimensions", .ofNat dimensions)]
  | .single token position =>
    [("kind", .text "single"), ("token", .text token), ("position", position.toJson)]
  | .parameterizedSingle token position arguments =>
    [("kind", .text "parameterized_single"), ("token", .text token), ("position", position.toJson),
      ("type_arguments", .array (TypeReference.listToJson arguments))]
  | .qualified tokens positions =>
    [("kind", .text "qualified"), ("tokens", .ofTexts tokens),
      ("positions", .ofList Position.toJson positions)]
  | .parameterizedQualified tokens positions arguments =>
    [("kind", .text "parameterized_qualified"), ("tokens", .ofTexts tokens),
      ("positions", .ofList Position.toJson positions),
      ("type_arguments", .array (TypeReference.segmentsToJson arguments))]
  | .array token dimensions position elementStop =>
    [("kind", .text "array"), ("token", .text token), ("dimensions", .ofNat dimensions),
      ("position", position.toJson), ("original_source_end", .integer elementStop)]
  | .arrayQualified tokens dimensions positions =>
    [("kind", .text "array_qualified"), ("tokens", .ofTexts tokens),
      ("dimensions", .ofNat dimensions), ("positions", .ofList Position.toJson positions)]

def TypeReference.listToJson : List TypeReference → List Json
  | [] => []
  | r :: rs => r.toJson :: TypeReference.listToJson rs

def TypeReference.segmentsToJson : List (Option (List TypeReference)) → List Json
  | [] => []
  | none :: rest => .null :: TypeReference.segmentsToJson rest
  | some arguments :: rest =>
    .array (TypeReference.listToJson arguments) :: TypeReference.segmentsToJson rest

end

end HostBridge
