import HostBridge.Binding.Attribution
import HostBridge.Declaration.Build
import HostBridge.FrontEnd.Recording
import HostBridge.Problem.Recording
import HostBridge.SourceFile
import HostBridge.Task.Scan

/-!
# Sessions and source units

A session is what all files of a build share: the front end, the registered files, the options and
the lookup environment. Driving the front end on behalf of one file drives it for all of them, so a
later file may find its phase reached and its messages waiting.

A source unit is the view of one file: its declarations, its reporter, and the outcome of each stage
that has been completed.
-/

namespace HostBridge

/-- The stages of the host's pipeline that report an outcome. -/
inductive Stage where
  | populate
  | resolve
  | analyse
  | generate
deriving DecidableEq, Repr, Inhabited

/-- The outcome of a stage. -/
inductive Outcome where
  | success
  /-- Problems were found and reported. -/
  | recoverableErrors (diagnostics : List Diagnostic)
  | cancelled
  | fatal (fault : Fault)
deriving DecidableEq, Repr, Inhabited

namespace Outcome

/-- Whether nothing was wrong. -/
def isSuccess (o : Outcome) : Bool := o = .success

/-- The outcome of recording problems: the build is told to stop if the reporter refused one. -/
def ofRecorded (diagnostics : Option (List Diagnostic)) : Outcome :=
  match diagnostics with
  | some diagnostics => .recoverableErrors diagnostics
  | none => .cancelled

end Outcome

/-- The state that all files of a build share. -/
structure Session where
  frontEnd : Recording
  options : Options := {}
  files : SourceFiles := {}
  /-- The types that can be found from every file. -/
  environment : Environment := {}
deriving Inhabited

/-- One file of a build. -/
structure SourceUnit where
  module : Source.ModuleId
  file : SourceFile
  /-- What the problems and tasks of the file go to. -/
  reporter : Reporter
  tree : DeclarationTree := {}
  /-- The outcome of each stage that has been completed. -/
  completed : Stage → Option Outcome := fun _ => none
deriving Inhabited

namespace SourceUnit

/-- Notes the outcome of a stage. -/
def complete (u : SourceUnit) (stage : Stage) (outcome : Outcome) : SourceUnit :=
  { u with completed := fun s => if s = stage then some outcome else u.completed s }

/-- Where and when the messages of a unit are reported. -/
def site (u : SourceUnit) (phase : Phase) : Site := .ofFile u.module u.file phase

end SourceUnit

/-- Opens a unit for a module. The text counts only if the path has not been registered before. -/
def Session.openUnit (s : Session) (id : Source.ModuleId) (path text : String)
    (reporter : Reporter) : Except Fault (Session × SourceUnit) :=
  match s.frontEnd.module? id with
  | none => .error (.unknownModule id)
  | some _ =>
    let files := s.files.register path text
    let file := (files.get? path).getD ⟨path, text⟩
    .ok ({ s with files }, { module := id, file, reporter })

end HostBridge
