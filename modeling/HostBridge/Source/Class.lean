import HostBridge.Modifiers
import HostBridge.Source.Descriptor
import HostBridge.Source.Expression

/-!
# Classes

The classes of a source file with their members, as the front end hands them over. Each node says
where it stands in a `Span`; a node that the front end made up has a span of zeros.
-/

namespace HostBridge.Source

/-- Where a node stands. -/
structure Span where
  start : Int := 0
  /-- The offset just past the last byte. -/
  stop : Int := 0
  /-- The offset of the first byte of the name. -/
  nameStart : Int := 0
  /-- The offset at the end of the name. -/
  nameStop : Int := 0
  /-- The line of the node, counted from one. -/
  line : Int := 0
deriving DecidableEq, Repr, Inhabited

namespace Span

/-- A node without a name and a line. -/
def extent (start stop : Int) : Span := { start, stop }

def withName (s : Span) (nameStart nameStop : Int) : Span := { s with nameStart, nameStop }

def onLine (s : Span) (line : Int) : Span := { s with line }

end Span

/-! ### Annotations -/

/-- The value given to a member of an annotation. -/
structure MemberUse where
  name : String
  value : Expression
deriving Inhabited

structure AnnotationUse where
  type : Descriptor
  /-- The members that are given a value. -/
  members : List MemberUse := []
  start : Int := 0
  /-- The offset just past the last byte. -/
  stop : Int := 0
deriving Inhabited

namespace AnnotationUse

def bare (type : Descriptor) (start stop : Int) : AnnotationUse := { type, start, stop }

def withMember (a : AnnotationUse) (name : String) (value : Expression) : AnnotationUse :=
  { a with members := a.members ++ [⟨name, value⟩] }

def member? (a : AnnotationUse) (name : String) : Option Expression :=
  (a.members.find? fun m => m.name == name).map (·.value)

end AnnotationUse

/-! ### Members of a class -/

structure Parameter where
  name : String
  type : Descriptor
  hasDefault : Bool := false
  start : Int := 0
  /-- The offset just past the last byte. -/
  stop : Int := 0
deriving Inhabited

namespace Parameter

def plain (name : String) (type : Descriptor) (start stop : Int) : Parameter :=
  { name, type, start, stop }

def defaulted (p : Parameter) : Parameter := { p with hasDefault := true }

end Parameter

structure Field where
  name : String
  modifiers : Modifiers := .none
  type : Descriptor
  annotations : List AnnotationUse := []
  span : Span := {}
deriving Inhabited

namespace Field

/-- A field as it is declared without flags: private. -/
def plain (name : String) (type : Descriptor) (span : Span) : Field :=
  { name, modifiers := .accPrivate, type, span }

def withModifiers (f : Field) (modifiers : Modifiers) : Field := { f with modifiers }

def withAnnotation (f : Field) (a : AnnotationUse) : Field :=
  { f with annotations := f.annotations ++ [a] }

def isSynthetic (f : Field) : Bool := f.modifiers.contains .accSynthetic

end Field

structure Method where
  name : String
  modifiers : Modifiers := .none
  parameters : List Parameter := []
  returnType : Descriptor := .object
  annotations : List AnnotationUse := []
  /-- Whether the method was made by the front end. -/
  synthetic : Bool := false
  span : Span := {}
deriving Inhabited

namespace Method

/-- A method as it is declared without flags and types: public, with any object for its result. -/
def plain (name : String) (span : Span) : Method := { name, modifiers := .accPublic, span }

def constructor (span : Span) : Method := plain "<init>" span

def withModifiers (m : Method) (modifiers : Modifiers) : Method := { m with modifiers }

def withParameter (m : Method) (p : Parameter) : Method :=
  { m with parameters := m.parameters ++ [p] }

def returning (m : Method) (returnType : Descriptor) : Method := { m with returnType }

def withAnnotation (m : Method) (a : AnnotationUse) : Method :=
  { m with annotations := m.annotations ++ [a] }

def asSynthetic (m : Method) : Method := { m with synthetic := true }

/-- Whether some parameter has a default value. -/
def hasDefaults (m : Method) : Bool := m.parameters.any (·.hasDefault)

end Method

/-! ### Classes -/

structure Class where
  /-- The qualified name. A nested class has the name of the enclosing one, a `$` and its own name.
  -/
  name : String
  modifiers : Modifiers := .none
  /-- Whether the class is written in the file, and not a by-product of compiling it. -/
  primary : Bool := true
  superClass : Option Descriptor := none
  interfaces : List Descriptor := []
  generics : List Generic := []
  fields : List Field := []
  methods : List Method := []
  constructors : List Method := []
  outer : Option String := none
  annotations : List AnnotationUse := []
  span : Span := {}
deriving Inhabited

namespace Class

/-- A class as it is declared without flags and supertypes: public, extending the root of all
classes. -/
def plain (name : String) (span : Span) : Class :=
  { name, modifiers := .accPublic, superClass := some .object, span }

def withModifiers (c : Class) (modifiers : Modifiers) : Class := { c with modifiers }

def withSuperClass (c : Class) (superClass : Option Descriptor) : Class := { c with superClass }

def withInterface (c : Class) (interface : Descriptor) : Class :=
  { c with interfaces := c.interfaces ++ [interface] }

def withTypeParameter (c : Class) (g : Generic) : Class := { c with generics := c.generics ++ [g] }

def withField (c : Class) (f : Field) : Class := { c with fields := c.fields ++ [f] }

def withMethod (c : Class) (m : Method) : Class := { c with methods := c.methods ++ [m] }

def withConstructor (c : Class) (m : Method) : Class :=
  { c with constructors := c.constructors ++ [m] }

def withAnnotation (c : Class) (a : AnnotationUse) : Class :=
  { c with annotations := c.annotations ++ [a] }

def nestedIn (c : Class) (outer : String) : Class := { c with outer := some outer }

def asSecondary (c : Class) : Class := { c with primary := false }

def isInterface (c : Class) : Bool := c.modifiers.contains .accInterface

def isEnum (c : Class) : Bool := c.modifiers.contains .accEnum

def simpleName (c : Class) : String := Dotted.simpleName c.name

end Class

end HostBridge.Source
