import HostBridge.Diagnostic
import HostBridge.Source.Message
import HostBridge.SourceFile

/-!
# From messages to diagnostics

A message of the front end becomes a diagnostic, if it is one to report for the module at hand. The
front end compiles all files together, so a fault of the parser may turn up in the messages of
another module; and that compilation was told to stop is not a problem of the user's program.

A fault is located by its offsets if the parser knew them, and then the reported line does not
count; else by line and column. Whatever is reported, the range of a diagnostic does not reach past
the end of the file, and its end is not before its start.
-/

namespace HostBridge

/-- Where and when the messages of a module are reported. -/
structure Site where
  module : Source.ModuleId
  /-- The offsets of the line breaks of its file. -/
  lineBreaks : List Int
  /-- The offset of the last byte of its file. -/
  lastOffset : Int
  /-- The phase that the front end was driven to. -/
  phase : Phase
deriving DecidableEq, Repr, Inhabited

namespace Site

def ofFile (module : Source.ModuleId) (file : SourceFile) (phase : Phase) : Site :=
  ⟨module, file.lineBreaks, file.lastOffset, phase⟩

/-- The line of an offset, counted from one: a line break belongs to the line that it ends. -/
def lineOf (s : Site) (offset : Int) : Int :=
  (s.lineBreaks.takeWhile (· < offset)).length + 1

/-- The offset that a column of a line stands for. On the first line, and on a line that the file
does not have, this is the column itself. -/
def offsetOf (s : Site) (line column : Int) : Int :=
  if line > 1 then
    match s.lineBreaks[(line - 2).toNat]? with
    | some lineBreak => lineBreak + column
    | none => column
  else column

/-- A problem before it is fitted into the file. -/
structure Finding where
  text : String
  /-- The line, or zero. -/
  line : Int
  /-- The column, or zero. -/
  column : Int
  start : Int
  stop : Int
deriving DecidableEq, Repr, Inhabited

/-- Locates a fault in the text of the module. -/
def locate (s : Site) (f : Source.LocatedFault) : Finding :=
  match f.precise with
  | some p => ⟨f.message, s.lineOf p.start, f.startColumn, p.start, p.stop⟩
  | none =>
    ⟨f.message, f.line, f.startColumn, s.offsetOf f.line f.startColumn,
      s.offsetOf f.line (f.stopColumn - 1)⟩

/-- What a message says about the module, if it is to be reported for it. -/
def finding? (s : Site) : Source.Message → Option Finding
  | .simple text => some ⟨text, 0, 0, 0, 0⟩
  | .located f => some (s.locate f)
  | .parser message module start stop =>
    if module = s.module then some ⟨message, s.lineOf start, 0, start, stop⟩ else none
  | .abort | .other _ => none

/-- The text in front of every diagnostic, which tells where it comes from. -/
def origin : String := "Groovy:"

/-- The diagnostic for a finding. -/
def diagnose (s : Site) (f : Finding) : Diagnostic where
  message := origin ++ Text.firstLine f.text
  severity := .error
  start := min f.start s.lastOffset
  stop := min (max f.stop f.start) s.lastOffset
  line := f.line
  column := f.column
  phase := s.phase

/-- The diagnostic for a message, if it is to be reported for the module. -/
def diagnostic? (s : Site) (m : Source.Message) : Option Diagnostic :=
  (s.finding? m).map s.diagnose

end Site

end HostBridge
