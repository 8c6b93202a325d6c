import HostBridge.Diagnostic
import HostBridge.Json.Decode
import HostBridge.Modifiers
import HostBridge.Options

/-!
# Phases, flags, options and diagnostics as JSON

A phase is written as its name in lower case, a set of flags as its written form, and the others as
objects. Every option has a default.
-/

namespace HostBridge

/-! ### Phases -/

def Phase.name : Phase → String
  | initialization => "initialization"
  | parsing => "parsing"
  | conversion => "conversion"
  | semanticAnalysis => "semantic_analysis"
  | canonicalization => "canonicalization"
  | instructionSelection => "instruction_selection"
  | classGeneration => "class_generation"
  | output => "output"
  | finalization => "finalization"

def Phase.ofName? (name : String) : Option Phase := Phase.all.find? fun phase => phase.name = name

theorem Phase.ofName?_name (phase : Phase) : ofName? phase.name = some phase := by
  cases phase <;> decide

def Phase.ofJson? (j : Json) : Option Phase := j.constantName?.bind ofName?

def Phase.toJson (phase : Phase) : Json := .text phase.name

/-! ### Flags -/

def Modifiers.ofJson? (j : Json) : Option Modifiers := j.text?.bind ofText?

def Modifiers.toJson (m : Modifiers) : Json := .text m.text

/-! ### Options -/

namespace TaskTags

def ofJson? (j : Json) : Option TaskTags := do
  let d : TaskTags := {}
  let r ← j.record? ["tags", "priorities", "case_sensitive"]
  return {
    tags := ← r.defaulted "tags" d.tags (Json.list? Json.text?)
    priorities := ← r.defaulted "priorities" d.priorities (Json.list? Json.text?)
    caseSensitive := ← r.defaulted "case_sensitive" d.caseSensitive Json.bool? }

def toJson (t : TaskTags) : Json :=
  .object [("tags", .ofTexts t.tags), ("priorities", .ofTexts t.priorities),
    ("case_sensitive", .bool t.caseSensitive)]

end TaskTags

namespace Options

def ofJson? (j : Json) : Option Options := do
  let d : Options := {}
  let r ← j.record? ["task_tags", "check_generics", "check_type_references"]
  return {
    taskTags := ← r.defaulted "task_tags" d.taskTags TaskTags.ofJson?
    checkGenerics := ← r.defaulted "check_generics" d.checkGenerics Json.bool?
    checkTypeReferences := ← r.defaulted "check_type_references" d.checkTypeReferences Json.bool? }

def toJson (o : Options) : Json :=
  .object [("task_tags", o.taskTags.toJson), ("check_generics", .bool o.checkGenerics),
    ("check_type_references", .bool o.checkTypeReferences)]

end Options

/-! ### Diagnostics -/

def Severity.name : Severity → String
  | error => "Error"
  | warning => "Warning"
  | info => "Info"

def Severity.ofName? : String → Option Severity
  | "Error" => some error
  | "Warning" => some warning
  | "Info" => some info
  | _ => none

def Severity.ofJson? (j : Json) : Option Severity := j.constantName?.bind ofName?

namespace Diagnostic

def ofJson? (j : Json) : Option Diagnostic := do
  let r ← j.record? ["message", "severity", "start", "end", "line", "column", "phase"]
  return {
    message := ← r.required "message" Json.text?
    severity := ← r.required "severity" Severity.ofJson?
    start := ← r.required "start" Json.offset?
    stop := ← r.required "end" Json.offset?
    line := ← r.required "line" Json.offset?
    column := ← r.required "column" Json.offset?
    phase := ← r.required "phase" Phase.ofJson? }

def toJson (d : Diagnostic) : Json :=
  .object [("message", .text d.message), ("severity", .text d.severity.name),
    ("start", .integer d.start), ("end", .integer d.stop), ("line", .integer d.line),
    ("column", .integer d.column), ("phase", d.phase.toJson)]

end Diagnostic

end HostBridge
