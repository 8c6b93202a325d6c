import HostBridge.FrontEnd.Generated
import HostBridge.Phase
import HostBridge.Source.Message

/-!
# Recorded front ends

A recording plays back what a front end reported for a build. It holds the modules, the classes that
were generated, and the messages and faults, each scheduled for a phase.

Driving the recording to a phase goes through the phases in between, `Recording.compile`. Each of
them releases the messages scheduled for it into the collectors of their modules and then raises the
first fault scheduled for it, if there is one. A fault is raised once; the phase counts as reached,
and driving on goes to the next one.
-/

namespace HostBridge

structure ScheduledMessage where
  phase : Phase
  message : Source.Message
deriving DecidableEq, Repr, Inhabited

structure ScheduledFault where
  phase : Phase
  fault : Source.CompileFault
deriving DecidableEq, Repr, Inhabited

structure RecordedUnit where
  path : String
  text : String := ""
  module : Source.Module
  /-- The messages that have not been released. -/
  pending : List ScheduledMessage := []
  /-- The messages that have been released and not yet been taken out. -/
  collector : List Source.Message := []
deriving Inhabited

/-- Releases the messages scheduled for a phase or an earlier one. -/
def RecordedUnit.release (phase : Phase) (u : RecordedUnit) : RecordedUnit :=
  { u with
    pending := u.pending.filter fun s => ¬ s.phase ≤ phase
    collector := u.collector ++ (u.pending.filter (·.phase ≤ phase)).map (·.message) }

structure Recording where
  units : List RecordedUnit := []
  /-- The faults that have not been raised. -/
  faults : List ScheduledFault := []
  generated : List GeneratedClass := []
  /-- The last phase that has been reached. -/
  reached : Phase := .initialization
deriving Inhabited

namespace Recording

/-! ### Building a recording -/

def withUnit (r : Recording) (path text : String) (module : Source.Module) : Recording :=
  { r with units := r.units ++ [{ path, text, module }] }

/-- Changes the first file with a module of that identity. -/
def modifyUnit (r : Recording) (id : Source.ModuleId) (f : RecordedUnit → RecordedUnit) :
    Recording :=
  { r with units := r.units.modify (r.units.findIdx fun u => u.module.id = id) f }

def withMessage (r : Recording) (id : Source.ModuleId) (phase : Phase) (message : Source.Message) :
    Recording :=
  r.modifyUnit id fun u => { u with pending := u.pending ++ [⟨phase, message⟩] }

def withFault (r : Recording) (phase : Phase) (fault : Source.CompileFault) : Recording :=
  { r with faults := r.faults ++ [⟨phase, fault⟩] }

def withGenerated (r : Recording) (name : String) (bytes : List UInt8) : Recording :=
  { r with generated := r.generated ++ [⟨name, bytes⟩] }

/-! ### Modules -/

/-- The first file with a module of that identity. -/
def unit? (r : Recording) (id : Source.ModuleId) : Option RecordedUnit :=
  r.units.find? fun u => u.module.id = id

def module? (r : Recording) (id : Source.ModuleId) : Option Source.Module :=
  (r.unit? id).map (·.module)

def collector? (r : Recording) (id : Source.ModuleId) : Option (List Source.Message) :=
  (r.unit? id).map (·.collector)

def setCollector (r : Recording) (id : Source.ModuleId) (messages : List Source.Message) :
    Recording :=
  r.modifyUnit id fun u => { u with collector := messages }

/-! ### Compiling -/

/-- The first fault scheduled for a phase, and the other faults. -/
def takeFault? (phase : Phase) :
    List ScheduledFault → Option (Source.CompileFault × List ScheduledFault)
  | [] => none
  | s :: ss =>
    if s.phase = phase then some (s.fault, ss)
    else (takeFault? phase ss).map fun (fault, rest) => (fault, s :: rest)

/-- Reaches a phase, releasing its messages. -/
def reach (r : Recording) (phase : Phase) : Recording :=
  { r with reached := phase, units := r.units.map (·.release phase) }

/-- Goes through phases until one of them raises a fault. -/
def advance : List Phase → Recording → Recording × Option Source.CompileFault
  | [], r => (r, none)
  | phase :: phases, r =>
    let r := r.reach phase
    match takeFault? phase r.faults with
    | some (fault, faults) => ({ r with faults }, some fault)
    | none => advance phases r

/-- Drives the front end to a phase. It stops early at a phase that raises a fault. -/
def compile (r : Recording) (target : Phase) : Recording × Option Source.CompileFault :=
  advance (r.reached.stepsTo target) r

end Recording

end HostBridge
