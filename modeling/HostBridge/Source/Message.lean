import HostBridge.Source.Module

/-!
# Messages and faults

The front end collects the problems of each module as messages, and raises a fault when it cannot go
on.
-/

namespace HostBridge.Source

structure OffsetRange where
  start : Int
  /-- The offset of the last byte. -/
  stop : Int
deriving DecidableEq, Repr, Inhabited

/-- A fault in the text of a module, located by line and columns. -/
structure LocatedFault where
  message : String
  /-- The line, counted from one. -/
  line : Int
  startColumn : Int
  /-- The column just past the faulty text. -/
  stopColumn : Int
  /-- The offsets, if the parser knew them. -/
  precise : Option OffsetRange := none
deriving DecidableEq, Repr, Inhabited

def LocatedFault.precisely (f : LocatedFault) (start stop : Int) : LocatedFault :=
  { f with precise := some ⟨start, stop⟩ }

inductive Message where
  | simple (text : String)
  /-- A fault in the text of the module. -/
  | located (fault : LocatedFault)
  /-- The parser failed in some module, not necessarily the one that collected the message. -/
  | parser (message : String) (module : ModuleId) (start stop : Int)
  | abort
  | other (message : String)
deriving DecidableEq, Repr, Inhabited

/-- A fault that the front end raises while it compiles. -/
inductive CompileFault where
  | multipleErrors (messages : List Message)
  | bug (message : String)
  | aborted
deriving DecidableEq, Repr, Inhabited

namespace CompileFault

/-- Whether the fault only says that compilation was told to stop. -/
def isCancellation : CompileFault → Bool
  | aborted => true
  | multipleErrors [.abort] => true
  | _ => false

def text : CompileFault → String
  | multipleErrors messages => toString messages.length ++ " compilation error(s)"
  | bug message => "internal compiler error: " ++ message
  | aborted => "compilation aborted"

end CompileFault

end HostBridge.Source
