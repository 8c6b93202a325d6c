import HostBridge.Source.Class

/-!
# Modules

A module is one source file after the front end has parsed it: its package and imports, its classes
and its comments. A module is known by its identity within the build.
-/

namespace HostBridge.Source

structure ModuleId where
  number : UInt32
deriving DecidableEq, Repr, Inhabited

def ModuleId.text (id : ModuleId) : String := "module#" ++ toString id.number.toNat

/-! ### Packages and imports -/

structure Package where
  /-- The dotted name, which may have dots at its end. -/
  name : String
  /-- The offset of the first byte of the name. -/
  start : Int
  /-- The offset just past the name. -/
  stop : Int
deriving DecidableEq, Repr, Inhabited

structure Import where
  className : String
  /-- Another name for the type in this file. -/
  localName : Option String := none
  /-- The type; only its offsets count. -/
  type : Descriptor
deriving Inhabited

namespace Import

/-- The import of a type written from `start` up to `stop`. -/
def plain (className : String) (start stop : Int) : Import :=
  { className, type := (Descriptor.named className).placedAt start stop }

def asName (i : Import) (localName : String) : Import := { i with localName := some localName }

end Import

structure StarImport where
  /-- The name of the package with the dot at its end. -/
  packageName : String
  /-- The offset of the first byte of the name. -/
  start : Int := 0
  /-- The offset just past the name. -/
  stop : Int := 0
deriving DecidableEq, Repr, Inhabited

/-! ### Comments -/

inductive CommentKind where
  | line
  | block
  | javadoc
deriving DecidableEq, Repr, Inhabited

structure Comment where
  kind : CommentKind
  /-- The whole text with its delimiters. -/
  text : String
  start : Int
  /-- The offset of the last byte. -/
  stop : Int
  firstLine : Int
  lastLine : Int
deriving DecidableEq, Repr, Inhabited

namespace Comment

/-- The comment with this text at an offset and a line; its end follows from the text. -/
def ofText (kind : CommentKind) (text : String) (start firstLine : Int) : Comment :=
  { kind, text, start, firstLine
    stop := start + text.utf8ByteSize - 1
    lastLine := firstLine + text.toList.count '\n' }

/-- Whether the comment documents what follows. -/
def isJavadoc (c : Comment) : Bool := c.kind = .javadoc

end Comment

/-! ### Modules -/

structure Module where
  id : ModuleId
  package : Option Package := none
  imports : List Import := []
  starImports : List StarImport := []
  /-- The classes, an enclosing one before those nested in it. -/
  classes : List Class := []
  comments : List Comment := []
deriving Inhabited

namespace Module

def empty (id : ModuleId) : Module := { id }

def withPackage (m : Module) (package : Package) : Module := { m with package := some package }

def withImport (m : Module) (i : Import) : Module := { m with imports := m.imports ++ [i] }

def withStarImport (m : Module) (i : StarImport) : Module :=
  { m with starImports := m.starImports ++ [i] }

def withClass (m : Module) (c : Class) : Module := { m with classes := m.classes ++ [c] }

def withComment (m : Module) (c : Comment) : Module := { m with comments := m.comments ++ [c] }

def class? (m : Module) (name : String) : Option Class := m.classes.find? fun c => c.name == name

end Module

end HostBridge.Source
