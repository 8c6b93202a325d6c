import HostBridge.Source.Module

/-!
# Faults

What stops the building of a file. None of these is a problem of the user's program, so none becomes
a diagnostic.
-/

namespace HostBridge

/-- A cause for giving up a file. -/
inductive Fault where
  /-- An array signature does not follow the form of class files. -/
  | malformedSignature (signature : String)
  /-- The range of a type reference ends before it starts. -/
  | malformedTypeReference (token : String) (start stop : Int)
  | missingOuterType (inner outer : String)
  | unknownModule (id : Source.ModuleId)
  | frontEndBug (message : String)
deriving DecidableEq, Repr, Inhabited

def Fault.message : Fault → String
  | malformedSignature signature =>
    "Unable to convert signature to reference. Signature was '" ++ signature ++ "'"
  | malformedTypeReference token start stop =>
    "Type reference '" ++ token ++ "' has malformed range " ++
      toString start ++ ".." ++ toString stop
  | missingOuterType inner outer =>
    "Outer type '" ++ outer ++ "' of '" ++ inner ++ "' has not been built"
  | unknownModule id => "Unknown module: " ++ id.text
  | frontEndBug message => "Front-end bug: " ++ message

end HostBridge
