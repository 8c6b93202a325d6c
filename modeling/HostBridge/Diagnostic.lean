import HostBridge.Phase

/-!
# Diagnostics

A diagnostic tells the host about one problem: one line of text, positioned in the file, with the
phase that found it.
-/

namespace HostBridge

/-- How bad a problem is. -/
inductive Severity where
  | error
  | warning
  | info
deriving DecidableEq, Repr, Inhabited

/-- The word for a severity at the start of a diagnostic's line. -/
def Severity.label : Severity → String
  | error => "ERROR"
  | warning => "WARNING"
  | info => "INFO"

/-- A problem as the host sees it. -/
structure Diagnostic where
  /-- What is wrong, on one line. -/
  message : String
  severity : Severity
  /-- The offset of the first byte that the problem covers. -/
  start : Int
  /-- The offset of the last byte that the problem covers. -/
  stop : Int
  /-- The line of the start, counted from one, or zero if it is not known. -/
  line : Int
  /-- The column that the front end reported, or zero. -/
  column : Int
  /-- The phase that the front end was driven to. -/
  phase : Phase
deriving DecidableEq, Repr, Inhabited

/-- The diagnostic as one line of text. -/
def Diagnostic.text (d : Diagnostic) : String :=
  d.severity.label ++ " " ++ toString d.start ++ ".." ++ toString d.stop ++ " (line " ++
    toString d.line ++ ", col " ++ toString d.column ++ "): " ++ d.message

end HostBridge
