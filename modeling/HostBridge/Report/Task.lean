/-!
# Task markers

A task marker tells the host about a tag such as `TODO` in a comment.
-/

namespace HostBridge

/-- An occurrence of a tag in a comment. -/
structure TaskMarker where
  tag : String
  message : String
  priority : Option String
  start : Int
  /-- The offset of the last byte. -/
  stop : Int
deriving DecidableEq, Repr, Inhabited

/-- The marker as one line of text. -/
def TaskMarker.text (t : TaskMarker) : String :=
  let priority := match t.priority with
    | none => ""
    | some p => "[" ++ p ++ "]"
  t.tag ++ priority ++ " " ++ toString t.start ++ ".." ++ toString t.stop ++ ": " ++ t.message

end HostBridge
