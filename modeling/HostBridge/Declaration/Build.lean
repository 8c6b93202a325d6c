import HostBridge.Annotation.Build
import HostBridge.Declaration.Overload
import HostBridge.Declaration.Tree
import HostBridge.Text.Affix

/-!
# Building declaration trees

The declarations of a module are built from its classes in order. Each class is built on its own,
`TypeContent.ofClass`, and then attached to the class that encloses it. By-products of compiling the
file are left out.

Of several faults the first one counts: those of an earlier class before those of a later one, and
for one class its own faults before the lack of an enclosing class. Within a class the order is that
of the definition of `TypeContent.ofClass`: annotations, type parameters, supertypes, fields,
constructors, methods.
-/

namespace HostBridge

/-! ### Package and imports -/

/-- The length of the word `package` and the blank after it. -/
def packageKeywordLength : Int := 8

namespace ImportReference

/-- The reference for a package declaration, which starts at its keyword. -/
def ofPackage (p : Source.Package) : ImportReference :=
  let tokens := Dotted.split (Dotted.withoutTrailingDots p.name)
  let r := ofTokens tokens (Position.layout tokens p.start p.stop) true none
  { r with declarationStart := r.start - packageKeywordLength }

def ofImport (i : Source.Import) : ImportReference :=
  let tokens := Dotted.split i.className
  ofTokens tokens (Position.layout tokens (max i.type.start 0) (max i.type.stop 0)) false
    i.localName

def ofStarImport (i : Source.StarImport) : ImportReference :=
  let tokens := Dotted.split (Dotted.withoutTrailingDots i.packageName)
  ofTokens tokens (Position.layout tokens i.start i.stop) true none

/-- The imports of a module in source order. Imports that start at the same offset keep their order,
with those of types before those of packages. -/
def ofModule (m : Source.Module) : List ImportReference :=
  (m.imports.map ofImport ++ m.starImports.map ofStarImport).mergeSort fun a b => a.start ≤ b.start

end ImportReference

/-! ### Members -/

/-- Builds from each element in turn, stopping at the first fault. -/
def buildEach {α β : Type} (f : α → Except Fault β) : List α → Except Fault (List β)
  | [] => .ok []
  | a :: as => do
    let b ← f a
    let bs ← buildEach f as
    return b :: bs

namespace TypeParameter

/-- The type parameter that an entry declares. Bounds after the first are marked as additional. -/
def ofGeneric (o : Options) (g : Source.Generic) : Except Fault TypeParameter :=
  match g.upperBounds.getD [] with
  | [] => .ok ⟨g.name, none, []⟩
  | first :: rest => do
    let type ← TypeReference.build o first
    let bounds ← buildEach (TypeReference.build o) rest
    return ⟨g.name, some type, bounds.map (·.asSuperType)⟩

end TypeParameter

namespace Argument

def ofParameter (o : Options) (p : Source.Parameter) : Except Fault Argument := do
  let type ← TypeReference.build o p.type
  return ⟨p.name, type, Position.spanning p.start (p.stop - 1), p.start⟩

def asVarArgs (a : Argument) : Argument := { a with type := a.type.asVarArgs }

/-- The arguments for some parameters. If the last one is an array it takes a variable number of
values. -/
def ofParameters (o : Options) (parameters : List Source.Parameter) :
    Except Fault (List Argument) := do
  let arguments ← buildEach (ofParameter o) parameters
  -- an array of a primitive type counts as well
  if parameters.getLast?.any (·.type.isArray) then
    return arguments.modify (arguments.length - 1) asVarArgs
  else return arguments

end Argument

namespace FieldDeclaration

/-- The declaration of a field. That a field is a constant of an enumeration is not passed on. -/
def ofField (o : Options) (comments : List Source.Comment) (f : Source.Field) :
    Except Fault FieldDeclaration := do
  let javadoc := findJavadoc comments f.span.line
  let type ← TypeReference.build o f.type
  let annotations ← Annotation.buildAll o f.annotations
  return ⟨f.name, f.modifiers.without .accEnum, type, annotations, javadoc,
    .ofField f.span javadoc⟩

end FieldDeclaration

namespace MethodDeclaration

/-- The flags of every constructor of a class, whatever it is declared with. -/
def constructorModifiers (c : Source.Class) : Modifiers :=
  if c.isEnum then .accPrivate else .accPublic

/-- The constructor of a class that declares none. -/
def defaultConstructor (c : Source.Class) (selector : String) : MethodDeclaration :=
  ⟨selector, constructorModifiers c, .constructor true, [], [], none, {}⟩

def ofConstructor (o : Options) (comments : List Source.Comment) (c : Source.Class)
    (selector : String) (m : Source.Method) : Except Fault MethodDeclaration := do
  let arguments ← Argument.ofParameters o m.parameters
  let annotations ← Annotation.buildAll o m.annotations
  let javadoc := findJavadoc comments m.span.line
  return ⟨selector, constructorModifiers c, .constructor false, arguments, annotations, javadoc,
    .ofMethod m.span javadoc⟩

/-- The flags that a method does not keep: the host has other ways to know what was made up, and
reads the second one as a variable number of arguments. -/
def hiddenFlags : Modifiers := .accSynthetic ||| .accTransient

/-- Whether this is one of the methods that the host makes up for every enumeration: `values()` and
`valueOf` of a text. -/
def isEnumMembership (m : Source.Method) : Bool :=
  m.synthetic &&
    ((m.name == "values" && m.parameters.isEmpty) ||
      (m.name == "valueOf" &&
        match m.parameters with
        | [p] => p.type.name == Source.stringName
        | _ => false))

/-- Whether this is the entry point of a script: static, named `main`, one untyped parameter. -/
def isScriptEntryPoint (m : Source.Method) : Bool :=
  m.modifiers.contains .accStatic && m.name == "main" &&
    match m.parameters with
    | [p] => p.type.name == Source.objectName
    | _ => false

/-- The reference for an array of texts that is not written anywhere. -/
def textArray : TypeReference :=
  let tokens := Dotted.split Source.stringName
  let positions := tokens.map fun _ => (⟨0, 0⟩ : Position)
  .reaching (.arrayQualified tokens 1 positions) positions

/-- The arguments of a method. The entry point of a script takes texts. -/
def argumentsOf (o : Options) (m : Source.Method) : Except Fault (List Argument) := do
  let arguments ← Argument.ofParameters o m.parameters
  if isScriptEntryPoint m then
    return arguments.modifyHead fun a => { a with type := textArray.asVarArgs }
  else return arguments

/-- The type of the result of a method. The entry point of a script without a type has no result. -/
def returnTypeOf (o : Options) (m : Source.Method) : Except Fault TypeReference :=
  if isScriptEntryPoint m ∧ m.returnType.name = Source.objectName then .ok (.base .void 0)
  else TypeReference.build o m.returnType

def ofMethod (o : Options) (comments : List Source.Comment) (m : Source.Method) :
    Except Fault MethodDeclaration := do
  let arguments ← argumentsOf o m
  let returnType ← returnTypeOf o m
  let annotations ← Annotation.buildAll o m.annotations
  let javadoc := findJavadoc comments m.span.line
  return ⟨m.name, m.modifiers.without hiddenFlags, .method returnType, arguments, annotations,
    javadoc, .ofMethod m.span javadoc⟩

/-- Declares methods one after the other, each with its overloads. -/
def declareEach (declare : Source.Method → Except Fault MethodDeclaration) :
    List Source.Method → List MethodDeclaration → Except Fault (List MethodDeclaration)
  | [], declared => .ok declared
  | m :: ms, declared => do
    let declaration ← declare m
    declareEach declare ms (addWithVariants m declaration declared)

/-- The constructors of a class. A class that declares none has a default constructor, unless it is
an interface. -/
def constructorsOf (o : Options) (comments : List Source.Comment) (c : Source.Class)
    (selector : String) : Except Fault (List MethodDeclaration) :=
  if c.constructors.isEmpty then
    .ok (if c.isInterface then [] else [defaultConstructor c selector])
  else declareEach (ofConstructor o comments c selector) c.constructors []

/-- The methods of a class that the host does not make up itself. -/
def writtenMethods (c : Source.Class) : List Source.Method :=
  c.methods.filter fun m => !(c.isEnum && isEnumMembership m)

end MethodDeclaration

/-! ### Types -/

/-- The name of a class within the class that encloses it, which drops the name of that class and
the `$` after it. -/
def declaredName (c : Source.Class) : String :=
  match c.outer with
  | none => c.simpleName
  | some outer =>
    match Text.afterPrefix? (Dotted.simpleName outer).toList c.simpleName.toList with
    | some ('$' :: rest) => String.ofList rest
    | _ => c.simpleName

/-- The flags of a class as a type of the host: the host has no private and no protected types, an
enumeration is final anyway, and an interface abstract. -/
def declaredModifiers (c : Source.Class) : Modifiers :=
  let impossible := Modifiers.accPrivate ||| .accProtected
  let implied :=
    (if c.isEnum then .accFinal else .none) ||| (if c.isInterface then .accAbstract else .none)
  c.modifiers.without (impossible ||| implied)

/-- The class that a class is declared to extend. What an enumeration extends by nature, and the
root of all classes where it is not written, does not count. -/
def writtenSuperClass? (c : Source.Class) : Option Source.Descriptor :=
  c.superClass.filter fun d =>
    !((c.isEnum && d.name == Source.enumName) || (d.start == 0 && d.name == Source.objectName))

/-- Builds what a class declares itself. -/
def TypeContent.ofClass (o : Options) (comments : List Source.Comment) (c : Source.Class) :
    Except Fault TypeContent := do
  let name := declaredName c
  let annotations ← Annotation.buildAll o c.annotations
  let typeParameters ← buildEach (TypeParameter.ofGeneric o) c.generics
  let superClass ← match writtenSuperClass? c with
    | none => .ok none
    | some d => (TypeReference.build o d).map some
  let superInterfaces ← buildEach (TypeReference.build o) c.interfaces
  let fields ← buildEach (FieldDeclaration.ofField o comments)
    (c.fields.filter fun f => !f.isSynthetic)
  let constructors ← MethodDeclaration.constructorsOf o comments c name
  let methods ← MethodDeclaration.declareEach (MethodDeclaration.ofMethod o comments)
    (MethodDeclaration.writtenMethods c) constructors
  let javadoc := findJavadoc comments c.span.line
  return {
    name, modifiers := declaredModifiers c, annotations, typeParameters, superClass, superInterfaces
    fields, methods, javadoc, range := .ofType c.span javadoc }

/-! ### Trees -/

/-- A forest under construction. -/
structure Forest where
  /-- The types built so far. -/
  types : List TypeDeclaration := []
  /-- The address of the type of each class, the latest class first. -/
  addresses : List (String × List Nat) := []
deriving Inhabited

namespace Forest

/-- The address at which a class is attached: that of the latest class with the name of the
enclosing one, or that of the file itself. -/
def ownerAddress? (f : Forest) (c : Source.Class) : Option (List Nat) :=
  match c.outer with
  | none => some []
  | some outer => f.addresses.lookup outer

/-- Builds the type of a class and attaches it. -/
def addClass (o : Options) (comments : List Source.Comment) (f : Forest) (c : Source.Class) :
    Except Fault Forest := do
  let content ← TypeContent.ofClass o comments c
  match (f.ownerAddress? c).bind fun path => attach f.types path (.leaf content) with
  | some (types, address) => return ⟨types, (c.name, address) :: f.addresses⟩
  | none => .error (.missingOuterType c.name (c.outer.getD ""))

/-- Builds the types of classes one after the other and attaches them. -/
def addClasses (o : Options) (comments : List Source.Comment) (f : Forest) :
    List Source.Class → Except Fault Forest
  | [] => .ok f
  | c :: cs => do
    let f ← f.addClass o comments c
    f.addClasses o comments cs

end Forest

/-- Builds the declarations of a module. The ranges of comments are filled in later. -/
def DeclarationTree.build (o : Options) (m : Source.Module) : Except Fault DeclarationTree := do
  let forest ← ({} : Forest).addClasses o m.comments (m.classes.filter (·.primary))
  return {
    package := m.package.map .ofPackage
    imports := ImportReference.ofModule m
    types := forest.types }

end HostBridge
