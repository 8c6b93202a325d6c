import HostBridge.Session.Callback

/-!
# Builds

A build is a session with its open units, which are numbered in the order in which they are opened.
The host may interleave the callbacks of different units as it likes, `Build.call`.
-/

namespace HostBridge

/-- A session with its open units. -/
structure Build where
  session : Session
  /-- The units, in the order in which they were opened. -/
  units : List SourceUnit := []
deriving Inhabited

/-- A callback of the host. -/
inductive Callback where
  /-- A stage that reports an outcome. -/
  | stage (stage : Stage)
  /-- Giving the declared types their identities. -/
  | buildScope
deriving DecidableEq, Repr, Inhabited

namespace Build

/-- Opens one more unit. -/
def openUnit (b : Build) (id : Source.ModuleId) (path text : String) (reporter : Reporter) :
    Except Fault Build :=
  match b.session.openUnit id path text reporter with
  | .ok (session, unit) => .ok ⟨session, b.units ++ [unit]⟩
  | .error fault => .error fault

/-- Lets an open unit take a step. -/
def onUnit {α : Type} (b : Build) (index : Nat) (f : SourceUnit → Session → Step α) :
    Option (Build × α) :=
  b.units[index]?.map fun u =>
    let step := f u b.session
    (⟨step.session, b.units.set index step.unit⟩, step.result)

/-- Runs a stage of an open unit. -/
def runStage (b : Build) (index : Nat) (stage : Stage) : Option (Build × Outcome) :=
  b.onUnit index fun u s => u.run s stage

/-- Builds the scope of an open unit. -/
def buildScope (b : Build) (index : Nat) : Option Build :=
  (b.onUnit index SourceUnit.buildScope).map (·.1)

/-- Calls an open unit back. A stage answers with its outcome. -/
def call (b : Build) (index : Nat) : Callback → Option (Build × Option Outcome)
  | .stage stage => (b.runStage index stage).map fun (b, outcome) => (b, some outcome)
  | .buildScope => (b.buildScope index).map fun b => (b, none)

end Build

end HostBridge
