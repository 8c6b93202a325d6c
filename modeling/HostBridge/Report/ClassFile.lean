/-!
# Class files

A class file holds the code of one generated class, together with the declared type it belongs to.
-/

namespace HostBridge

structure ClassFile where
  name : String
  /-- The qualified name of the type it belongs to. -/
  binding : String
  bytes : List UInt8
deriving DecidableEq, Repr, Inhabited

/-- The path of a class file, which is the name of its class with slashes for dots. -/
def ClassFile.path (f : ClassFile) : String :=
  String.ofList (f.name.toList.map fun c => if c = '.' then '/' else c)

end HostBridge
