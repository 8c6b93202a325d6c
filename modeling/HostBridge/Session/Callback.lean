import HostBridge.Session.State

/-!
# Callbacks

The host drives a unit by callbacks as its own pipeline advances. Each of them may change the unit
and the session.

* `SourceUnit.processTo` drives the front end to a phase and records what it reported for the file.
* `SourceUnit.run` runs a stage. A stage is run at most once; asking again gives the first outcome.
  A stage that was told to stop may be run again.
* `SourceUnit.buildScope` gives the declared types their identities.
-/

namespace HostBridge

/-- What a callback leaves behind. -/
structure Step (α : Type) where
  unit : SourceUnit
  session : Session
  /-- What the callback answers. -/
  result : α
deriving Inhabited

namespace SourceUnit

/-! ### Driving the front end -/

/-- Records the collected messages of a unit's module. There is no answer if the reporter refused
one. -/
def recordDiagnostics (u : SourceUnit) (s : Session) (phase : Phase) :
    Step (Option (List Diagnostic)) :=
  match s.frontEnd.collector? u.module with
  | none => ⟨u, s, some []⟩
  | some messages =>
    let recorded := (u.site phase).record messages u.reporter
    ⟨{ u with reporter := recorded.reporter },
      { s with frontEnd := s.frontEnd.setCollector u.module recorded.remaining },
      recorded.diagnostics⟩

/-- Deals with a fault of the front end. A fault with problems reports them. After reported problems
a broken front end is a consequence of them. -/
def handleFault (u : SourceUnit) (s : Session) (phase : Phase) (fault : Source.CompileFault) :
    Step Outcome :=
  if fault.isCancellation then ⟨u, s, .cancelled⟩
  else
    match fault with
    | .multipleErrors messages =>
      let recorded := (u.site phase).record messages u.reporter
      ⟨{ u with reporter := recorded.reporter }, s, .ofRecorded recorded.diagnostics⟩
    | .bug message =>
      if u.reporter.hasProblems then ⟨u, s, .recoverableErrors []⟩
      else ⟨u, s, .fatal (.frontEndBug message)⟩
    | .aborted => ⟨u, s, .cancelled⟩

/-- Drives the front end to a phase and records what it reported for the unit. -/
def processTo (u : SourceUnit) (s : Session) (phase : Phase) : Step Outcome :=
  let (frontEnd, fault) := s.frontEnd.compile phase
  let s := { s with frontEnd }
  match fault with
  | some fault => u.handleFault s phase fault
  | none =>
    match frontEnd.collector? u.module with
    | none | some [] => ⟨u, s, .success⟩
    | some (_ :: _) =>
      let step := u.recordDiagnostics s phase
      ⟨step.unit, step.session, .ofRecorded step.result⟩

/-! ### Stages -/

/-- Hands over task markers until one is refused. The answer tells whether all were accepted. -/
def reportTasks : List TaskMarker → Reporter → Reporter × Bool
  | [], r => (r, true)
  | t :: ts, r =>
    let (r, accepted) := r.submit (.task t)
    if accepted then reportTasks ts r else (r, false)

/-- Parses and converts the file, then builds its declarations. A file with problems gets none. -/
def populate (u : SourceUnit) (s : Session) : Step Outcome :=
  let step := u.processTo s .conversion
  if step.result.isSuccess then
    match step.session.frontEnd.module? u.module with
    | none => { step with result := .fatal (.unknownModule u.module) }
    | some m =>
      match DeclarationTree.build step.session.options m with
      | .ok tree => { step with unit := { step.unit with tree } }
      | .error fault => { step with result := .fatal fault }
  else step

/-- Analyses the meaning of the file, then reports its tasks and fills in the ranges of its
comments. -/
def resolve (u : SourceUnit) (s : Session) : Step Outcome :=
  let step := u.processTo s .semanticAnalysis
  if step.result = .cancelled then step
  else
    match step.session.frontEnd.module? u.module with
    | none => step
    | some m =>
      -- problems do not keep the tasks from being reported
      let tasks := Task.scan step.session.options.taskTags m.comments
      let (reporter, accepted) := reportTasks tasks step.unit.reporter
      if accepted then
        let comments := m.comments.map fun c => (⟨c.start, c.stop⟩ : CommentRange)
        { step with unit := { step.unit with reporter, tree.comments := comments } }
      else { step with unit := { step.unit with reporter }, result := .cancelled }

/-- Completes the class nodes of the file. -/
def analyse (u : SourceUnit) (s : Session) : Step Outcome := u.processTo s .canonicalization

/-- Generates the classes of the file and records their code. -/
def generate (u : SourceUnit) (s : Session) : Step Outcome :=
  let step := u.processTo s .finalization
  if step.result.isSuccess then
    match step.session.frontEnd.module? u.module with
    | none => step
    | some m =>
      let (reporter, _) :=
        attributeAll m step.unit.tree step.session.frontEnd.generated step.unit.reporter
      { step with unit := { step.unit with reporter } }
  else step

/-- What a stage does. -/
def perform (u : SourceUnit) (s : Session) : Stage → Step Outcome
  | .populate => u.populate s
  | .resolve => u.resolve s
  | .analyse => u.analyse s
  | .generate => u.generate s

/-- Runs a stage, unless it has been completed. -/
def run (u : SourceUnit) (s : Session) (stage : Stage) : Step Outcome :=
  match u.completed stage with
  | some outcome => ⟨u, s, outcome⟩
  | none =>
    let step := u.perform s stage
    if step.result = .cancelled then step
    else { step with unit := step.unit.complete stage step.result }

/-! ### Scopes -/

/-- Gives the declared types their identities and registers them. -/
def buildScope (u : SourceUnit) (s : Session) : Step Unit :=
  let tree := u.tree.bind
  ⟨{ u with tree }, { s with environment := s.environment.registerAll tree.bindings }, ()⟩

end SourceUnit

end HostBridge
