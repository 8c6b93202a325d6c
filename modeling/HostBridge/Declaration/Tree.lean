import HostBridge.Declaration.Member

/-!
# Declaration trees

What the host is given for one file: the package, the imports, and the declared types, each with the
types nested in it. The types form a forest whose nodes are addressed by paths of indices: the first
index chooses a type of the file, each further one a type nested in the one before.

* `TypeDeclaration.walkAll` — the types of a forest, depth first, each before those nested in it;
* `attach` — a forest with one more type at an address.
-/

namespace HostBridge

structure ImportReference where
  tokens : List String
  positions : List Position
  /-- Whether this is a package declaration or the import of a whole package. -/
  onDemand : Bool
  /-- Another name for the imported type in this file. -/
  localName : Option String
  start : Int
  stop : Int
  declarationStart : Int
deriving DecidableEq, Repr, Inhabited

namespace ImportReference

/-- A reference that reaches from the first to the last of its segments. -/
def ofTokens (tokens : List String) (positions : List Position) (onDemand : Bool)
    (localName : Option String) : ImportReference :=
  let start := Position.firstStart positions
  ⟨tokens, positions, onDemand, localName, start, Position.lastStop positions, start⟩

/-- The name that the reference stands for. -/
def qualifiedName (r : ImportReference) : String := Dotted.join r.tokens

end ImportReference

/-- The identity that the host gives to a declared type. -/
structure TypeBinding where
  /-- The segments of the package, then the name of the type with the names of the enclosing types.
  -/
  compoundName : List String
deriving DecidableEq, Repr, Inhabited

/-- The qualified name of a bound type. -/
def TypeBinding.qualifiedName (b : TypeBinding) : String := Dotted.join b.compoundName

/-- What a type declares, apart from the types nested in it. -/
structure TypeContent where
  name : String
  modifiers : Modifiers
  annotations : List Annotation
  typeParameters : List TypeParameter
  /-- The class that is extended, if it is written. -/
  superClass : Option TypeReference
  superInterfaces : List TypeReference
  fields : List FieldDeclaration
  /-- The constructors, then the methods. -/
  methods : List MethodDeclaration
  javadoc : Option Javadoc
  range : DeclarationRange
deriving Inhabited

namespace TypeContent

def method? (t : TypeContent) (selector : String) : Option MethodDeclaration :=
  t.methods.find? fun m => m.selector == selector

def field? (t : TypeContent) (name : String) : Option FieldDeclaration :=
  t.fields.find? fun f => f.name == name

def constructors (t : TypeContent) : List MethodDeclaration := t.methods.filter (·.isConstructor)

end TypeContent

structure TypeDeclaration where
  /-- What the type declares itself. -/
  content : TypeContent
  memberTypes : List TypeDeclaration
  /-- The identity, once the host has built the scope of the file. -/
  binding : Option TypeBinding
deriving Inhabited

namespace TypeDeclaration

/-- A type without nested types and without an identity. -/
def leaf (content : TypeContent) : TypeDeclaration := ⟨content, [], none⟩

def name (t : TypeDeclaration) : String := t.content.name

def memberType? (t : TypeDeclaration) (name : String) : Option TypeDeclaration :=
  t.memberTypes.find? fun m => m.name == name

mutual

/-- The type itself, then the types nested in it, depth first. -/
def walk : TypeDeclaration → List TypeDeclaration
  | ⟨content, memberTypes, binding⟩ => ⟨content, memberTypes, binding⟩ :: walkAll memberTypes

/-- The types of a forest, depth first. -/
def walkAll : List TypeDeclaration → List TypeDeclaration
  | [] => []
  | t :: ts => t.walk ++ walkAll ts

end

end TypeDeclaration

/-! ### Addresses -/

/-- The forest with one more type, which comes last among the types nested in the one at `path`, or
among the types of the file if the path is empty. The address of the new type comes with it. -/
def attach (types : List TypeDeclaration) (path : List Nat) (new : TypeDeclaration) :
    Option (List TypeDeclaration × List Nat) :=
  match path with
  | [] => some (types ++ [new], [types.length])
  | i :: path =>
    match types[i]? with
    | none => none
    | some t => (attach t.memberTypes path new).map fun (memberTypes, address) =>
        (types.set i { t with memberTypes }, i :: address)

/-! ### The tree of a file -/

/-- The first and the last offset of a comment. -/
structure CommentRange where
  start : Int
  /-- The offset of the last byte. -/
  stop : Int
deriving DecidableEq, Repr, Inhabited

/-- The declarations of a file. -/
structure DeclarationTree where
  package : Option ImportReference := none
  imports : List ImportReference := []
  /-- The types of the file that are not nested in another one. -/
  types : List TypeDeclaration := []
  /-- The ranges of the comments, once the file has been resolved. -/
  comments : List CommentRange := []
deriving Inhabited

namespace DeclarationTree

/-- Every type of the file, depth first. -/
def walk (t : DeclarationTree) : List TypeDeclaration := TypeDeclaration.walkAll t.types

/-- The segments of the name of the package. -/
def packageSegments (t : DeclarationTree) : List String := (t.package.map (·.tokens)).getD []

end DeclarationTree

end HostBridge
