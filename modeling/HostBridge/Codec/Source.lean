import HostBridge.Codec.Core
import HostBridge.Source.Message

/-!
# Source nodes as JSON

Modules, classes and their parts are records whose fields have defaults wherever there is a sensible
one. Descriptors and expressions nest to any depth; decoding them ends because a part is smaller
than its record.

Expressions, messages and faults have a tag that tells their kind. Such a value must be readable as
a whole, with what is ignored in it. The tag of one that stands alone tells the kind by name; the
tag of one inside another one, and the second tag of an exception, may tell it by its place.
-/

namespace HostBridge.Source

/-! ### Descriptors -/

mutual

def Descriptor.ofJson? (j : Json) : Option Descriptor := do
  let r ← j.record? ["name", "start", "end", "generics", "placeholder"]
  return {
    name := ← r.required "name" Json.text?
    start := ← r.defaulted "start" 0 Json.offset?
    stop := ← r.defaulted "end" 0 Json.offset?
    generics := ← r.defaultedWithin "generics" [] fun list _ =>
      list.listWithin? fun g _ => Generic.ofJson? g
    placeholder := ← r.defaulted "placeholder" false Json.bool? }
termination_by sizeOf j
decreasing_by omega

def Generic.ofJson? (j : Json) : Option Generic := do
  let r ← j.record? ["name", "ty", "wildcard", "upper_bounds", "lower_bound", "start", "end"]
  return {
    name := ← r.required "name" Json.text?
    type := ← r.defaultedWithin "ty" (Descriptor.named "") fun type _ => Descriptor.ofJson? type
    wildcard := ← r.defaulted "wildcard" false Json.bool?
    upperBounds := ← r.nullableWithin "upper_bounds" fun list _ =>
      list.listWithin? fun bound _ => Descriptor.ofJson? bound
    lowerBound := ← r.nullableWithin "lower_bound" fun bound _ => Descriptor.ofJson? bound
    start := ← r.defaulted "start" 0 Json.offset?
    stop := ← r.defaulted "end" 0 Json.offset? }
termination_by sizeOf j
decreasing_by all_goals omega

end

mutual

def Descriptor.toJson : Descriptor → Json
  | ⟨name, start, stop, generics, placeholder⟩ =>
    .object [("name", .text name), ("start", .integer start), ("end", .integer stop),
      ("generics", .array (Generic.listToJson generics)), ("placeholder", .bool placeholder)]

def Generic.toJson : Generic → Json
  | ⟨name, type, wildcard, upperBounds, lowerBound, start, stop⟩ =>
    .object [("name", .text name), ("ty", type.toJson), ("wildcard", .bool wildcard),
      ("upper_bounds", match upperBounds with
        | none => .null
        | some bounds => .array (Descriptor.listToJson bounds)),
      ("lower_bound", match lowerBound with
        | none => .null
        | some bound => bound.toJson),
      ("start", .integer start), ("end", .integer stop)]

def Generic.listToJson : List Generic → List Json
  | [] => []
  | g :: gs => g.toJson :: Generic.listToJson gs

def Descriptor.listToJson : List Descriptor → List Json
  | [] => []
  | d :: ds => d.toJson :: Descriptor.listToJson ds

end

/-! ### Expressions -/

def Constant.ofJson? : Json → Option Constant
  | .bool b => some (.boolean b)
  | .text s => some (.text s)
  | j => j.int64?.map .integer

def Constant.toJson : Constant → Json
  | boolean b => .bool b
  | integer n => .integer n
  | text s => .text s

def Expression.ofReadable? (form : Json.TagForm) (j : Json) : Option Expression := do
  let kinds := ["property", "variable", "constant", "list", "other"]
  let (kind, contents) ← (← j.contents?).kind? "kind" kinds form
  match kind with
  | "property" =>
    let r ← contents.record? ["object", "property", "start", "end"]
    let object ← r.requiredWithin "object" fun x _ => Expression.ofReadable? .nameOrPlace x
    return .property object (← r.required "property" Json.text?) (← r.required "start" Json.offset?)
      (← r.required "end" Json.offset?)
  | "variable" =>
    let r ← contents.record? ["name", "start", "end"]
    return .identifier (← r.required "name" Json.text?) (← r.required "start" Json.offset?)
      (← r.required "end" Json.offset?)
  | "constant" =>
    let r ← contents.record? ["value", "start", "end"]
    return .constant (← r.required "value" Constant.ofJson?) (← r.required "start" Json.offset?)
      (← r.required "end" Json.offset?)
  | "list" =>
    let r ← contents.record? ["elements", "start", "end"]
    let elements ← r.requiredWithin "elements" fun list _ =>
      list.listWithin? fun x _ => Expression.ofReadable? .nameOrPlace x
    return .list elements (← r.required "start" Json.offset?) (← r.required "end" Json.offset?)
  | "other" =>
    let r ← contents.record? ["start", "end"]
    return .other (← r.required "start" Json.offset?) (← r.required "end" Json.offset?)
  | _ => none
termination_by sizeOf j
decreasing_by all_goals omega

def Expression.ofJson? (j : Json) : Option Expression :=
  if j.isReadable then ofReadable? .name j else none

mutual

def Expression.toJson : Expression → Json
  | .property object name start stop =>
    .object [("kind", .text "property"), ("object", object.toJson), ("property", .text name),
      ("start", .integer start), ("end", .integer stop)]
  | .identifier name start stop =>
    .object [("kind", .text "variable"), ("name", .text name), ("start", .integer start),
      ("end", .integer stop)]
  | .constant value start stop =>
    .object [("kind", .text "constant"), ("value", value.toJson), ("start", .integer start),
      ("end", .integer stop)]
  | .list elements start stop =>
    .object [("kind", .text "list"), ("elements", .array (Expression.listToJson elements)),
      ("start", .integer start), ("end", .integer stop)]
  | .other start stop =>
    .object [("kind", .text "other"), ("start", .integer start), ("end", .integer stop)]

def Expression.listToJson : List Expression → List Json
  | [] => []
  | e :: es => e.toJson :: Expression.listToJson es

end

/-! ### Classes and their members -/

def Span.ofJson? (j : Json) : Option Span := do
  let r ← j.record? ["start", "end", "name_start", "name_end", "line"]
  return {
    start := ← r.defaulted "start" 0 Json.offset?
    stop := ← r.defaulted "end" 0 Json.offset?
    nameStart := ← r.defaulted "name_start" 0 Json.offset?
    nameStop := ← r.defaulted "name_end" 0 Json.offset?
    line := ← r.defaulted "line" 0 Json.offset? }

def Span.toJson (s : Span) : Json :=
  .object [("start", .integer s.start), ("end", .integer s.stop),
    ("name_start", .integer s.nameStart), ("name_end", .integer s.nameStop),
    ("line", .integer s.line)]

def MemberUse.ofJson? (j : Json) : Option MemberUse := do
  let r ← j.record? ["name", "value"]
  return {
    name := ← r.required "name" Json.text?
    value := ← r.required "value" Expression.ofJson? }

def MemberUse.toJson (m : MemberUse) : Json :=
  .object [("name", .text m.name), ("value", m.value.toJson)]

def AnnotationUse.ofJson? (j : Json) : Option AnnotationUse := do
  let r ← j.record? ["class", "members", "start", "end"]
  return {
    type := ← r.required "class" Descriptor.ofJson?
    members := ← r.defaulted "members" [] (Json.list? MemberUse.ofJson?)
    start := ← r.defaulted "start" 0 Json.offset?
    stop := ← r.defaulted "end" 0 Json.offset? }

def AnnotationUse.toJson (a : AnnotationUse) : Json :=
  .object [("class", a.type.toJson), ("members", .ofList MemberUse.toJson a.members),
    ("start", .integer a.start), ("end", .integer a.stop)]

def Parameter.ofJson? (j : Json) : Option Parameter := do
  let r ← j.record? ["name", "ty", "has_initial_expression", "start", "end"]
  return {
    name := ← r.required "name" Json.text?
    type := ← r.required "ty" Descriptor.ofJson?
    hasDefault := ← r.defaulted "has_initial_expression" false Json.bool?
    start := ← r.defaulted "start" 0 Json.offset?
    stop := ← r.defaulted "end" 0 Json.offset? }

def Parameter.toJson (p : Parameter) : Json :=
  .object [("name", .text p.name), ("ty", p.type.toJson),
    ("has_initial_expression", .bool p.hasDefault), ("start", .integer p.start),
    ("end", .integer p.stop)]

def Field.ofJson? (j : Json) : Option Field := do
  let r ← j.record? ["name", "modifiers", "ty", "annotations", "span"]
  return {
    name := ← r.required "name" Json.text?
    modifiers := ← r.defaulted "modifiers" .none Modifiers.ofJson?
    type := ← r.required "ty" Descriptor.ofJson?
    annotations := ← r.defaulted "annotations" [] (Json.list? AnnotationUse.ofJson?)
    span := ← r.defaulted "span" {} Span.ofJson? }

def Field.toJson (f : Field) : Json :=
  .object [("name", .text f.name), ("modifiers", f.modifiers.toJson), ("ty", f.type.toJson),
    ("annotations", .ofList AnnotationUse.toJson f.annotations), ("span", f.span.toJson)]

def Method.ofJson? (j : Json) : Option Method := do
  let r ← j.record? ["name", "modifiers", "parameters", "return_type", "annotations", "synthetic",
    "span"]
  return {
    name := ← r.required "name" Json.text?
    modifiers := ← r.defaulted "modifiers" .none Modifiers.ofJson?
    parameters := ← r.defaulted "parameters" [] (Json.list? Parameter.ofJson?)
    returnType := ← r.defaulted "return_type" .object Descriptor.ofJson?
    annotations := ← r.defaulted "annotations" [] (Json.list? AnnotationUse.ofJson?)
    synthetic := ← r.defaulted "synthetic" false Json.bool?
    span := ← r.defaulted "span" {} Span.ofJson? }

def Method.toJson (m : Method) : Json :=
  .object [("name", .text m.name), ("modifiers", m.modifiers.toJson),
    ("parameters", .ofList Parameter.toJson m.parameters), ("return_type", m.returnType.toJson),
    ("annotations", .ofList AnnotationUse.toJson m.annotations), ("synthetic", .bool m.synthetic),
    ("span", m.span.toJson)]

def Class.ofJson? (j : Json) : Option Class := do
  let r ← j.record? ["name", "modifiers", "primary", "super_class", "interfaces", "generics",
    "fields", "methods", "constructors", "outer", "annotations", "span"]
  return {
    name := ← r.required "name" Json.text?
    modifiers := ← r.defaulted "modifiers" .none Modifiers.ofJson?
    primary := ← r.defaulted "primary" true Json.bool?
    superClass := ← r.nullable "super_class" Descriptor.ofJson?
    interfaces := ← r.defaulted "interfaces" [] (Json.list? Descriptor.ofJson?)
    generics := ← r.defaulted "generics" [] (Json.list? Generic.ofJson?)
    fields := ← r.defaulted "fields" [] (Json.list? Field.ofJson?)
    methods := ← r.defaulted "methods" [] (Json.list? Method.ofJson?)
    constructors := ← r.defaulted "constructors" [] (Json.list? Method.ofJson?)
    outer := ← r.nullable "outer" Json.text?
    annotations := ← r.defaulted "annotations" [] (Json.list? AnnotationUse.ofJson?)
    span := ← r.defaulted "span" {} Span.ofJson? }

def Class.toJson (c : Class) : Json :=
  .object [("name", .text c.name), ("modifiers", c.modifiers.toJson), ("primary", .bool c.primary),
    ("super_class", .ofOption Descriptor.toJson c.superClass),
    ("interfaces", .ofList Descriptor.toJson c.interfaces),
    ("generics", .ofList Generic.toJson c.generics), ("fields", .ofList Field.toJson c.fields),
    ("methods", .ofList Method.toJson c.methods),
    ("constructors", .ofList Method.toJson c.constructors), ("outer", .ofOption .text c.outer),
    ("annotations", .ofList AnnotationUse.toJson c.annotations), ("span", c.span.toJson)]

/-! ### Modules -/

def ModuleId.ofJson? (j : Json) : Option ModuleId := j.uint32?.map ModuleId.mk

def ModuleId.toJson (id : ModuleId) : Json := .ofNat id.number.toNat

def Package.ofJson? (j : Json) : Option Package := do
  let r ← j.record? ["name", "start", "end"]
  return {
    name := ← r.required "name" Json.text?
    start := ← r.required "start" Json.offset?
    stop := ← r.required "end" Json.offset? }

def Package.toJson (p : Package) : Json :=
  .object [("name", .text p.name), ("start", .integer p.start), ("end", .integer p.stop)]

def Import.ofJson? (j : Json) : Option Import := do
  let r ← j.record? ["class_name", "alias", "ty"]
  return {
    className := ← r.required "class_name" Json.text?
    localName := ← r.nullable "alias" Json.text?
    type := ← r.required "ty" Descriptor.ofJson? }

def Import.toJson (i : Import) : Json :=
  .object [("class_name", .text i.className), ("alias", .ofOption .text i.localName),
    ("ty", i.type.toJson)]

def StarImport.ofJson? (j : Json) : Option StarImport := do
  let r ← j.record? ["package_name", "start", "end"]
  return {
    packageName := ← r.required "package_name" Json.text?
    start := ← r.defaulted "start" 0 Json.offset?
    stop := ← r.defaulted "end" 0 Json.offset? }

def StarImport.toJson (i : StarImport) : Json :=
  .object [("package_name", .text i.packageName), ("start", .integer i.start),
    ("end", .integer i.stop)]

def CommentKind.name : CommentKind → String
  | line => "line"
  | block => "block"
  | javadoc => "javadoc"

def CommentKind.ofName? : String → Option CommentKind
  | "line" => some line
  | "block" => some block
  | "javadoc" => some javadoc
  | _ => none

def CommentKind.ofJson? (j : Json) : Option CommentKind := j.constantName?.bind ofName?

def Comment.ofJson? (j : Json) : Option Comment := do
  let r ← j.record? ["kind", "text", "start", "end", "first_line", "last_line"]
  return {
    kind := ← r.required "kind" CommentKind.ofJson?
    text := ← r.required "text" Json.text?
    start := ← r.required "start" Json.offset?
    stop := ← r.required "end" Json.offset?
    firstLine := ← r.required "first_line" Json.offset?
    lastLine := ← r.required "last_line" Json.offset? }

def Comment.toJson (c : Comment) : Json :=
  .object [("kind", .text c.kind.name), ("text", .text c.text), ("start", .integer c.start),
    ("end", .integer c.stop), ("first_line", .integer c.firstLine),
    ("last_line", .integer c.lastLine)]

def Module.ofJson? (j : Json) : Option Module := do
  let r ← j.record? ["id", "package", "imports", "star_imports", "classes", "comments"]
  return {
    id := ← r.required "id" ModuleId.ofJson?
    package := ← r.nullable "package" Package.ofJson?
    imports := ← r.defaulted "imports" [] (Json.list? Import.ofJson?)
    starImports := ← r.defaulted "star_imports" [] (Json.list? StarImport.ofJson?)
    classes := ← r.defaulted "classes" [] (Json.list? Class.ofJson?)
    comments := ← r.defaulted "comments" [] (Json.list? Comment.ofJson?) }

def Module.toJson (m : Module) : Json :=
  .object [("id", m.id.toJson), ("package", .ofOption Package.toJson m.package),
    ("imports", .ofList Import.toJson m.imports),
    ("star_imports", .ofList StarImport.toJson m.starImports),
    ("classes", .ofList Class.toJson m.classes), ("comments", .ofList Comment.toJson m.comments)]

/-! ### Messages and faults -/

def OffsetRange.ofJson? (j : Json) : Option OffsetRange := do
  let r ← j.record? ["start", "end"]
  return {
    start := ← r.required "start" Json.offset?
    stop := ← r.required "end" Json.offset? }

def OffsetRange.toJson (r : OffsetRange) : Json :=
  .object [("start", .integer r.start), ("end", .integer r.stop)]

def LocatedFault.ofContents? {j : Json} (contents : j.Contents) : Option LocatedFault := do
  let r ← contents.record? ["message", "line", "start_column", "end_column", "precise"]
  return {
    message := ← r.required "message" Json.text?
    line := ← r.required "line" Json.offset?
    startColumn := ← r.required "start_column" Json.offset?
    stopColumn := ← r.required "end_column" Json.offset?
    precise := ← r.nullable "precise" OffsetRange.ofJson? }

/-- Decodes a message of an exception, which has a tag of its own. -/
def Message.exceptionOfContents? {j : Json} (contents : j.Contents) : Option Message := do
  let kinds := ["parser", "abort", "other"]
  let (kind, contents) ← contents.kind? "exception" kinds .nameOrPlace
  match kind with
  | "parser" =>
    let r ← contents.record? ["message", "module", "start", "end"]
    return .parser (← r.required "message" Json.text?) (← r.required "module" ModuleId.ofJson?)
      (← r.required "start" Json.offset?) (← r.required "end" Json.offset?)
  | "abort" => (contents.record? []).map fun _ => .abort
  | "other" =>
    let r ← contents.record? ["message"]
    return .other (← r.required "message" Json.text?)
  | _ => none

def Message.ofReadable? (form : Json.TagForm) (j : Json) : Option Message := do
  let (kind, contents) ← (← j.contents?).kind? "kind" ["simple", "syntax", "exception"] form
  match kind with
  | "simple" =>
    let r ← contents.record? ["text"]
    return .simple (← r.required "text" Json.text?)
  | "syntax" => (LocatedFault.ofContents? contents).map .located
  | "exception" => Message.exceptionOfContents? contents
  | _ => none

def Message.ofJson? (j : Json) : Option Message :=
  if j.isReadable then ofReadable? .name j else none

def Message.toJson : Message → Json
  | simple text => .object [("kind", .text "simple"), ("text", .text text)]
  | located f =>
    .object [("kind", .text "syntax"), ("message", .text f.message), ("line", .integer f.line),
      ("start_column", .integer f.startColumn), ("end_column", .integer f.stopColumn),
      ("precise", .ofOption OffsetRange.toJson f.precise)]
  | parser message module start stop =>
    .object [("kind", .text "exception"), ("exception", .text "parser"), ("message", .text message),
      ("module", module.toJson), ("start", .integer start), ("end", .integer stop)]
  | abort => .object [("kind", .text "exception"), ("exception", .text "abort")]
  | other message =>
    .object [("kind", .text "exception"), ("exception", .text "other"), ("message", .text message)]

def CompileFault.ofReadable? (j : Json) : Option CompileFault := do
  let kinds := ["multiple_errors", "bug", "aborted"]
  let (kind, contents) ← (← j.contents?).kind? "fault" kinds .name
  match kind with
  | "multiple_errors" =>
    let r ← contents.record? ["messages"]
    return .multipleErrors (← r.required "messages" (Json.list? (Message.ofReadable? .nameOrPlace)))
  | "bug" =>
    let r ← contents.record? ["message"]
    return .bug (← r.required "message" Json.text?)
  | "aborted" => (contents.record? []).map fun _ => .aborted
  | _ => none

def CompileFault.ofJson? (j : Json) : Option CompileFault :=
  if j.isReadable then ofReadable? j else none

def CompileFault.toJson : CompileFault → Json
  | multipleErrors messages =>
    .object [("fault", .text "multiple_errors"), ("messages", .ofList Message.toJson messages)]
  | bug message => .object [("fault", .text "bug"), ("message", .text message)]
  | aborted => .object [("fault", .text "aborted")]

end HostBridge.Source
