/-!
# Generated classes

A class as the front end generates it.
-/

namespace HostBridge

/-- The code of one class. -/
structure GeneratedClass where
  /-- The qualified name; the names of nested classes are joined by `$`. -/
  name : String
  bytes : List UInt8
deriving DecidableEq, Repr, Inhabited

end HostBridge
