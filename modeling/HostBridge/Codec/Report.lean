import HostBridge.Json.Value
import HostBridge.Report.ClassFile
import HostBridge.Report.Task

/-!
# Task markers and class files as JSON
-/

namespace HostBridge

def TaskMarker.toJson (t : TaskMarker) : Json :=
  .object [("tag", .text t.tag), ("message", .text t.message),
    ("priority", .ofOption .text t.priority), ("start", .integer t.start), ("end", .integer t.stop)]

def bytesToJson (bytes : List UInt8) : Json := .ofList (fun b => .ofNat b.toNat) bytes

def ClassFile.toJson (f : ClassFile) : Json :=
  .object [("name", .text f.name), ("path", .text f.path), ("binding", .text f.binding),
    ("bytes", bytesToJson f.bytes)]

end HostBridge
