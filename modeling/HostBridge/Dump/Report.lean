import HostBridge.Codec.Tree
import HostBridge.Dump.OutcomeText
import HostBridge.Json.Writer
import HostBridge.Session.Build

/-!
# Dumping a recorded build

A dump plays a recording: it opens every file and runs the stages of the host's pipeline one after
the other, each for all files, up to a last stage. Scopes are built before names are resolved. Then
it prints what has become of each file: the outcome of each stage, the declarations, and what was
reported.
-/

namespace HostBridge

namespace Stage

def all : List Stage := [populate, resolve, analyse, generate]

def name : Stage → String
  | populate => "populate"
  | resolve => "resolve"
  | analyse => "analyse"
  | generate => "generate"

def ofName? (name : String) : Option Stage := all.find? fun stage => stage.name = name

/-- The stages up to a last one. -/
def upTo (last : Stage) : List Stage := all.take (all.idxOf last + 1)

end Stage

/-- What has become of one file of a dump. -/
structure UnitReport where
  path : String
  unit : SourceUnit
  outcomes : List (Stage × Outcome) := []
deriving Inhabited

/-- The files of a dump with what they share. -/
structure Dump where
  session : Session
  reports : List UnitReport := []
deriving Inhabited

namespace Dump

/-- Lets every file take a step, one after the other. -/
def forEach {α : Type} (f : SourceUnit → Session → Step α)
    (note : UnitReport → α → UnitReport) (s : Session) : List UnitReport → Dump
  | [] => ⟨s, []⟩
  | r :: rs =>
    let step := f r.unit s
    let rest := forEach f note step.session rs
    { rest with reports := note { r with unit := step.unit } step.result :: rest.reports }

def openAll (s : Session) : List RecordedUnit → Dump
  | [] => ⟨s, []⟩
  | u :: us =>
    match s.openUnit u.module.id u.path u.text .accepting with
    | .error _ => openAll s us
    | .ok (s, unit) =>
      let rest := openAll s us
      { rest with reports := { path := u.path, unit } :: rest.reports }

def runStage (d : Dump) (stage : Stage) : Dump :=
  let d :=
    if stage = .resolve then forEach SourceUnit.buildScope (fun r _ => r) d.session d.reports else d
  forEach (fun u s => u.run s stage)
    (fun r outcome => { r with outcomes := r.outcomes ++ [(stage, outcome)] }) d.session d.reports

/-- Plays a recording up to a stage. -/
def play (recording : Recording) (options : Options) (last : Stage) : Dump :=
  last.upTo.foldl runStage (openAll { frontEnd := recording, options } recording.units)

end Dump

/-! ### Printing -/

/-- A heading with a count, then the entries, indented. -/
def countedList (heading : String) (entries : List String) : List String :=
  (heading ++ " (" ++ toString entries.length ++ " total):") :: entries.map ("  " ++ ·)

def ClassFile.text (f : ClassFile) : String :=
  f.path ++ " -> " ++ f.binding ++ " (" ++ toString f.bytes.length ++ " bytes)"

def UnitReport.lines (r : UnitReport) : List String :=
  ["=== " ++ r.path ++ " ==="] ++
    r.outcomes.map (fun (stage, outcome) => stage.name ++ ": " ++ outcome.detailed) ++
    [r.unit.tree.toJson.indented] ++
    countedList "Diagnostics" (r.unit.reporter.diagnostics.map (·.text)) ++
    countedList "Tasks" (r.unit.reporter.tasks.map (·.text)) ++
    countedList "Class files" (r.unit.reporter.classFiles.map (·.text)) ++ [""]

/-- What is printed for a dump. -/
def Dump.text (d : Dump) : String :=
  String.join ((d.reports.flatMap (·.lines)).map (· ++ "\n"))

end HostBridge
