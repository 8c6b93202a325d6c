import HostBridge.Codec.Annotation
import HostBridge.Codec.Core
import HostBridge.Declaration.Tree

/-!
# Declaration trees as JSON

Each declaration is an object whose keys come in a fixed order. A value that is absent is written as
null.
-/

namespace HostBridge

def Javadoc.toJson (d : Javadoc) : Json :=
  .object [("source_start", .integer d.start), ("source_end", .integer d.stop)]

def DeclarationRange.toJson (r : DeclarationRange) : Json :=
  .object [("source_start", .integer r.start), ("source_end", .integer r.stop),
    ("declaration_source_start", .integer r.declarationStart),
    ("declaration_source_end", .integer r.declarationStop),
    ("modifiers_source_start", .integer r.modifiersStart), ("body_start", .integer r.bodyStart),
    ("body_end", .integer r.bodyStop)]

/-- Encodes a package declaration or an import, which has no flags. -/
def ImportReference.toJson (r : ImportReference) : Json :=
  .object [("tokens", .ofTexts r.tokens), ("positions", .ofList Position.toJson r.positions),
    ("on_demand", .bool r.onDemand), ("alias", .ofOption .text r.localName),
    ("modifiers", Modifiers.toJson .none), ("source_start", .integer r.start),
    ("source_end", .integer r.stop), ("declaration_source_start", .integer r.declarationStart),
    ("declaration_source_end", .integer r.stop), ("declaration_end", .integer r.stop)]

def TypeParameter.toJson (p : TypeParameter) : Json :=
  .object [("name", .text p.name), ("ty", .ofOption TypeReference.toJson p.type),
    ("bounds", .ofList TypeReference.toJson p.bounds)]

def Argument.toJson (a : Argument) : Json :=
  .object [("name", .text a.name), ("ty", a.type.toJson), ("position", a.position.toJson),
    ("declaration_source_start", .integer a.declarationStart)]

def MethodKind.toJson : MethodKind → Json
  | method returnType => .object [("kind", .text "method"), ("return_type", returnType.toJson)]
  | constructor isDefault =>
    .object [("kind", .text "constructor"), ("is_default", .bool isDefault)]

def MethodDeclaration.toJson (m : MethodDeclaration) : Json :=
  .object [("selector", .text m.selector), ("modifiers", m.modifiers.toJson),
    ("kind", m.kind.toJson), ("arguments", .ofList Argument.toJson m.arguments),
    ("annotations", .ofList Annotation.toJson m.annotations),
    ("javadoc", .ofOption Javadoc.toJson m.javadoc), ("range", m.range.toJson)]

def FieldDeclaration.toJson (f : FieldDeclaration) : Json :=
  .object [("name", .text f.name), ("modifiers", f.modifiers.toJson), ("ty", f.type.toJson),
    ("annotations", .ofList Annotation.toJson f.annotations),
    ("javadoc", .ofOption Javadoc.toJson f.javadoc), ("range", f.extent.range.toJson),
    ("declaration_end", .integer f.extent.declarationEnd),
    ("end_part1_position", .integer f.extent.typeEnd),
    ("end_part2_position", .integer f.extent.partEnd)]

def TypeBinding.toJson (b : TypeBinding) : Json :=
  .object [("compound_name", .ofTexts b.compoundName)]

/-- The fields of a type before those nested in it. Every type can be found from other files. -/
def TypeContent.membersBefore (t : TypeContent) : List (String × Json) :=
  [("name", .text t.name), ("modifiers", t.modifiers.toJson), ("is_secondary", .bool true),
    ("annotations", .ofList Annotation.toJson t.annotations),
    ("type_parameters", .ofList TypeParameter.toJson t.typeParameters),
    ("super_class", .ofOption TypeReference.toJson t.superClass),
    ("super_interfaces", .ofList TypeReference.toJson t.superInterfaces),
    ("fields", .ofList FieldDeclaration.toJson t.fields),
    ("methods", .ofList MethodDeclaration.toJson t.methods)]

/-- The fields of a type after those nested in it. -/
def TypeContent.membersAfter (t : TypeContent) : List (String × Json) :=
  [("javadoc", .ofOption Javadoc.toJson t.javadoc), ("range", t.range.toJson)]

mutual

def TypeDeclaration.toJson : TypeDeclaration → Json
  | ⟨content, memberTypes, binding⟩ =>
    .object (content.membersBefore ++
      [("member_types", .array (TypeDeclaration.listToJson memberTypes))] ++ content.membersAfter ++
      [("binding", .ofOption TypeBinding.toJson binding)])

def TypeDeclaration.listToJson : List TypeDeclaration → List Json
  | [] => []
  | t :: ts => t.toJson :: TypeDeclaration.listToJson ts

end

def CommentRange.toJson (r : CommentRange) : Json :=
  .object [("start", .integer r.start), ("end", .integer r.stop)]

def DeclarationTree.toJson (t : DeclarationTree) : Json :=
  .object [("package", .ofOption ImportReference.toJson t.package),
    ("imports", .ofList ImportReference.toJson t.imports),
    ("types", .array (TypeDeclaration.listToJson t.types)),
    ("comments", .ofList CommentRange.toJson t.comments)]

end HostBridge
