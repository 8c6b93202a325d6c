import HostBridge.Dump.Command

/-!
# The command line

Reads the files that the arguments name, runs the command and prints what comes of it. The exit code
is 0 for a dump and for help, 1 for a fault and 2 for arguments that are not understood.
-/

namespace HostBridge

/-- The number of an error of the system, whose code may be given with either sign. -/
def errorNumber (code : UInt32) : Nat :=
  if code.toNat < 0x80000000 then code.toNat else 0x100000000 - code.toNat

/-- The text of an error of the system by its number. Numbers that reading a file does not give rise
to have the text that comes with them. -/
def errorText (number : Nat) (details : String) : String :=
  match number with
  | 2 => "No such file or directory"
  | 13 => "Permission denied"
  | 20 => "Not a directory"
  | 21 => "Is a directory"
  | 36 => "File name too long"
  | 40 => "Too many levels of symbolic links"
  | _ => details

/-- The reason that an error of the system gives. -/
def systemReason (code : UInt32) (details : String) : String :=
  errorText (errorNumber code) details ++ " (os error " ++ toString (errorNumber code) ++ ")"

/-- The reason why a file cannot be read. -/
def readFailure : IO.Error → String
  | .noFileOrDirectory _ code details | .inappropriateType _ code details
  | .permissionDenied _ code details | .resourceExhausted _ code details
  | .invalidArgument _ code details => systemReason code details
  | .otherError code details => systemReason code details
  | .userError _ => "stream did not contain valid UTF-8"
  | e => e.toString

def readInput (path : String) : IO InputFile := do
  try
    let text ← IO.FS.readFile path
    return ⟨path, .ok text⟩
  catch e =>
    return ⟨path, .error (readFailure e)⟩

end HostBridge

open HostBridge

def main (arguments : List String) : IO UInt32 := do
  match Request.ofArguments arguments with
  | .help =>
    IO.print usage
    return 0
  | .usageError =>
    IO.eprint usage
    return 2
  | .dump request =>
    let recording ← readInput request.recording
    let options ← request.options.mapM readInput
    match dump recording options request.stage with
    | .ok text =>
      IO.print text
      return 0
    | .error fault =>
      IO.eprintln ("Error: " ++ fault.message)
      return 1
