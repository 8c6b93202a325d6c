import HostBridge.Session.State
import HostBridge.Text.Escaped

/-!
# Outcomes in a dump

A dump shows the outcome of a stage as the name of its kind with everything it holds, on one line.
-/

namespace HostBridge

/-- A name with the fields it holds. -/
def labelled (name : String) (fields : List (String × String)) : String :=
  name ++ " \x7b " ++ ", ".intercalate (fields.map fun f => f.1 ++ ": " ++ f.2) ++ " \x7d"

/-- A phase in a dump. -/
def Phase.label : Phase → String
  | initialization => "Initialization"
  | parsing => "Parsing"
  | conversion => "Conversion"
  | semanticAnalysis => "SemanticAnalysis"
  | canonicalization => "Canonicalization"
  | instructionSelection => "InstructionSelection"
  | classGeneration => "ClassGeneration"
  | output => "Output"
  | finalization => "Finalization"

/-- A severity in a dump. -/
def Severity.fullLabel : Severity → String
  | error => "Error"
  | warning => "Warning"
  | info => "Info"

/-- A diagnostic in the outcome of a stage. -/
def Diagnostic.detailed (d : Diagnostic) : String :=
  labelled "Diagnostic"
    [("message", Text.escaped d.message), ("severity", d.severity.fullLabel),
      ("start", toString d.start), ("end", toString d.stop), ("line", toString d.line),
      ("column", toString d.column), ("phase", d.phase.label)]

/-- A fault in the outcome of a stage. -/
def Fault.detailed : Fault → String
  | malformedSignature signature =>
    labelled "MalformedSignature" [("signature", Text.escaped signature)]
  | malformedTypeReference token start stop =>
    labelled "MalformedTypeReference"
      [("token", Text.escaped token), ("start", toString start), ("end", toString stop)]
  | missingOuterType inner outer =>
    labelled "MissingOuterType" [("inner", Text.escaped inner), ("outer", Text.escaped outer)]
  | unknownModule id =>
    labelled "UnknownModule" [("module", "ModuleId(" ++ toString id.number.toNat ++ ")")]
  | frontEndBug message => labelled "FrontEndBug" [("message", Text.escaped message)]

/-- An outcome in a dump. -/
def Outcome.detailed : Outcome → String
  | success => "Success"
  | recoverableErrors diagnostics =>
    "RecoverableErrors([" ++ ", ".intercalate (diagnostics.map (·.detailed)) ++ "])"
  | cancelled => "Cancelled"
  | fatal fault => "Fatal(" ++ fault.detailed ++ ")"

end HostBridge
