import HostBridge.Text.Dotted

/-!
# Descriptors

A descriptor refers to a type as it is written, or inferred, at some place of a source file. It
carries the name, where the name stands, and the type arguments. An array type is named in the
signature form of class files, such as `[I` or `[[Ljava.lang.String;`.

An entry of a list of type arguments or type parameters is a `Generic`: a plain type, a wildcard
with or without a bound, or a type variable.
-/

namespace HostBridge.Source

mutual

/-- A reference to a type, as written. -/
structure Descriptor where
  name : String
  /-- The offset of the first byte of the reference. -/
  start : Int
  /-- The offset just past the reference. -/
  stop : Int
  generics : List Generic
  /-- Whether the name is a type variable. -/
  placeholder : Bool

/-- A type argument or a type parameter. -/
structure Generic where
  /-- The name of the variable of a type parameter, `?` for a wildcard, else the name of the
  argument. -/
  name : String
  /-- The type of an argument. The type of a type parameter is its variable. -/
  type : Descriptor
  wildcard : Bool
  upperBounds : Option (List Descriptor)
  lowerBound : Option Descriptor
  start : Int
  /-- The offset just past the last byte. -/
  stop : Int

end

def objectName : String := "java.lang.Object"

def stringName : String := "java.lang.String"

def enumName : String := "java.lang.Enum"

namespace Descriptor

/-- The descriptor of a type that is not written anywhere. -/
def named (name : String) : Descriptor := ⟨name, 0, 0, [], false⟩

def object : Descriptor := named objectName

def placedAt (d : Descriptor) (start stop : Int) : Descriptor := { d with start, stop }

def withGenerics (d : Descriptor) (generics : List Generic) : Descriptor := { d with generics }

def asPlaceholder (d : Descriptor) : Descriptor := { d with placeholder := true }

def hasGenerics (d : Descriptor) : Bool := !d.generics.isEmpty

def isArray (d : Descriptor) : Bool := d.name.toList.head? = some '['

def simpleName (d : Descriptor) : String := Dotted.simpleName d.name

instance : Inhabited Descriptor := ⟨named ""⟩

end Descriptor

namespace Generic

/-- The argument that is a plain type. -/
def plain (type : Descriptor) : Generic :=
  ⟨type.name, type, false, none, none, type.start, type.stop⟩

/-- The wildcard without a bound. -/
def unbound (start stop : Int) : Generic :=
  ⟨"?", Descriptor.object.placedAt start stop, true, none, none, start, stop⟩

/-- The type parameter with a variable of that name. -/
def parameter (name : String) (start stop : Int) : Generic :=
  ⟨name, ((Descriptor.named name).placedAt start stop).asPlaceholder, false, none, none, start,
    stop⟩

def boundedAbove (g : Generic) (bounds : List Descriptor) : Generic :=
  { g with upperBounds := some bounds }

def boundedBelow (g : Generic) (bound : Descriptor) : Generic := { g with lowerBound := some bound }

def isPlaceholder (g : Generic) : Bool := g.type.placeholder

instance : Inhabited Generic := ⟨⟨"", default, false, none, none, 0, 0⟩⟩

end Generic

end HostBridge.Source
