import HostBridge.Codec.Recording
import HostBridge.Dump.Arguments
import HostBridge.Json.Reader

/-!
# The dump command

What the command does once the files have been read: it decodes the recording, then the options, and
prints the dump. The recording comes first, so its faults hide those of the options.
-/

namespace HostBridge

/-- Why a dump fails. -/
inductive DumpFault where
  | unreadable (path reason : String)
  /-- A file does not hold what it should. -/
  | invalidJson (path : String)
deriving DecidableEq, Repr, Inhabited

def DumpFault.message : DumpFault → String
  | unreadable path reason => "cannot read " ++ path ++ ": " ++ reason
  | invalidJson path => "invalid JSON in " ++ path

/-- A file of the command line: its path, and its text or the reason why it cannot be read. -/
structure InputFile where
  path : String
  /-- The text, or the reason why it cannot be read. -/
  content : Except String String

def InputFile.decode {α : Type} (f : InputFile) (decode : Json → Option α) : Except DumpFault α :=
  match f.content with
  | .error reason => .error (.unreadable f.path reason)
  | .ok text =>
    match (Json.read? text).bind decode with
    | some a => .ok a
    | none => .error (.invalidJson f.path)

/-- What the dump of a recording prints. -/
def dump (recording : InputFile) (options : Option InputFile) (stage : Stage) :
    Except DumpFault String := do
  let recording ← recording.decode Recording.ofJson?
  let options ← match options with
    | none => .ok {}
    | some file => file.decode Options.ofJson?
  return (Dump.play recording options stage).text

def usage : String :=
  "Replays a recorded front-end build and prints what the host is given.\n\n" ++
    "Usage: dump FILE [--options FILE] [--stage STAGE] [-v|--verbose]\n\n" ++
    "Stages: " ++ ", ".intercalate (Stage.all.map (·.name)) ++ "\n"

end HostBridge
