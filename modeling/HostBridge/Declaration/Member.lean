import HostBridge.Annotation.Basic
import HostBridge.Declaration.Range

/-!
# Members of declared types

The fields, methods and constructors that a type declares, and its type parameters.
-/

namespace HostBridge

/-- A type parameter. -/
structure TypeParameter where
  name : String
  /-- The first bound. -/
  type : Option TypeReference
  bounds : List TypeReference
deriving DecidableEq, Inhabited

/-- An argument of a method or a constructor. -/
structure Argument where
  name : String
  type : TypeReference
  position : Position
  declarationStart : Int
deriving DecidableEq, Inhabited

/-- What tells methods and constructors apart. -/
inductive MethodKind where
  /-- A method with the type of its result. -/
  | method (returnType : TypeReference)
  /-- A constructor, which is made up if the class declares none. -/
  | constructor (isDefault : Bool)
deriving DecidableEq, Inhabited

structure MethodDeclaration where
  selector : String
  modifiers : Modifiers
  kind : MethodKind
  arguments : List Argument
  annotations : List Annotation
  javadoc : Option Javadoc
  range : DeclarationRange
deriving DecidableEq, Inhabited

namespace MethodDeclaration

def isConstructor (m : MethodDeclaration) : Bool :=
  match m.kind with
  | .constructor _ => true
  | .method _ => false

/-- Whether this is the constructor of a class that declares none. -/
def isDefaultConstructor (m : MethodDeclaration) : Bool := m.kind = .constructor true

/-- The type of the result of a method. -/
def returnType? (m : MethodDeclaration) : Option TypeReference :=
  match m.kind with
  | .method returnType => some returnType
  | .constructor _ => none

/-- The names of the types of the arguments, without type arguments. -/
def argumentTypeNames (m : MethodDeclaration) : List String := m.arguments.map (·.type.typeName)

/-- Whether two declarations clash: they have the same name, and arguments with the same names of
types. -/
def clashesWith (m m' : MethodDeclaration) : Bool :=
  m.selector == m'.selector && m.argumentTypeNames == m'.argumentTypeNames

end MethodDeclaration

structure FieldDeclaration where
  name : String
  modifiers : Modifiers
  type : TypeReference
  annotations : List Annotation
  javadoc : Option Javadoc
  extent : FieldExtent
deriving DecidableEq, Inhabited

end HostBridge
