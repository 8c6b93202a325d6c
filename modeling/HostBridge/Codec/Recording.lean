import HostBridge.Codec.Report
import HostBridge.Codec.Source
import HostBridge.FrontEnd.Recording

/-!
# Recordings as JSON

A recording is written before it is played: the reached phase and the collectors are not part of it.
-/

namespace HostBridge

def GeneratedClass.ofJson? (j : Json) : Option GeneratedClass := do
  let r ← j.record? ["name", "bytes"]
  return {
    name := ← r.required "name" Json.text?
    bytes := ← r.defaulted "bytes" [] (Json.list? Json.byte?) }

def GeneratedClass.toJson (g : GeneratedClass) : Json :=
  .object [("name", .text g.name), ("bytes", bytesToJson g.bytes)]

def ScheduledMessage.ofJson? (j : Json) : Option ScheduledMessage := do
  let r ← j.record? ["phase", "message"]
  return {
    phase := ← r.required "phase" Phase.ofJson?
    message := ← r.required "message" Source.Message.ofJson? }

def ScheduledMessage.toJson (s : ScheduledMessage) : Json :=
  .object [("phase", s.phase.toJson), ("message", s.message.toJson)]

def ScheduledFault.ofJson? (j : Json) : Option ScheduledFault := do
  let r ← j.record? ["phase", "fault"]
  return {
    phase := ← r.required "phase" Phase.ofJson?
    fault := ← r.required "fault" Source.CompileFault.ofJson? }

def ScheduledFault.toJson (s : ScheduledFault) : Json :=
  .object [("phase", s.phase.toJson), ("fault", s.fault.toJson)]

def RecordedUnit.ofJson? (j : Json) : Option RecordedUnit := do
  let r ← j.record? ["path", "text", "module", "messages"]
  return {
    path := ← r.required "path" Json.text?
    text := ← r.defaulted "text" "" Json.text?
    module := ← r.required "module" Source.Module.ofJson?
    pending := ← r.defaulted "messages" [] (Json.list? ScheduledMessage.ofJson?) }

def RecordedUnit.toJson (u : RecordedUnit) : Json :=
  .object [("path", .text u.path), ("text", .text u.text), ("module", u.module.toJson),
    ("messages", .ofList ScheduledMessage.toJson u.pending)]

def Recording.ofJson? (j : Json) : Option Recording := do
  let r ← j.record? ["units", "faults", "generated"]
  return {
    units := ← r.defaulted "units" [] (Json.list? RecordedUnit.ofJson?)
    faults := ← r.defaulted "faults" [] (Json.list? ScheduledFault.ofJson?)
    generated := ← r.defaulted "generated" [] (Json.list? GeneratedClass.ofJson?) }

def Recording.toJson (r : Recording) : Json :=
  .object [("units", .ofList RecordedUnit.toJson r.units),
    ("faults", .ofList ScheduledFault.toJson r.faults),
    ("generated", .ofList GeneratedClass.toJson r.generated)]

end HostBridge
