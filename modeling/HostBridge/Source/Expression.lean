/-!
# Expressions

The values of annotation members, as far as they matter here: constants, lists, and chains of
properties that start at a variable, such as `org.junit.Runner`. Any other expression is only known
by where it stands.
-/

namespace HostBridge.Source

inductive Constant where
  | boolean (value : Bool)
  | integer (value : Int)
  | text (value : String)
deriving DecidableEq, Repr, Inhabited

/-- An expression with the offset of its first byte and the offset just past it. -/
inductive Expression where
  /-- A property of an object, such as `String.class`. -/
  | property (object : Expression) (name : String) (start stop : Int)
  | identifier (name : String) (start stop : Int)
  | constant (value : Constant) (start stop : Int)
  | list (elements : List Expression) (start stop : Int)
  | other (start stop : Int)
deriving Inhabited

namespace Expression

def string (value : String) (start stop : Int) : Expression := constant (.text value) start stop

def start : Expression → Int
  | property _ _ start _ | identifier _ start _ | constant _ start _ | list _ start _
  | other start _ => start

def stop : Expression → Int
  | property _ _ _ stop | identifier _ _ stop | constant _ _ stop | list _ _ stop
  | other _ stop => stop

/-- The names of a chain of properties, in source order. A chain that starts at something other than
a variable has no name for its start. -/
def chain : Expression → List String
  | property object name _ _ => object.chain ++ [name]
  | identifier name _ _ => [name]
  | _ => []

/-- The source text of a chain of properties that starts at a variable. -/
def text? : Expression → Option String
  | property object name _ _ => object.text?.map (· ++ "." ++ name)
  | identifier name _ _ => some name
  | _ => none

end Expression

end HostBridge.Source
