/-!
# Options

What a user can choose about a build: which tags mark tasks in comments, and which checks run while
type references are built.
-/

namespace HostBridge

/-- The tags that mark tasks in comments. -/
structure TaskTags where
  /-- The tags, in the order in which their occurrences are reported. -/
  tags : List String := ["TODO", "FIXME", "XXX"]
  /-- The priority of each tag, at the tag's place in the list. -/
  priorities : List String := ["NORMAL", "HIGH", "NORMAL"]
  /-- Whether an occurrence has to agree with its tag in the case of letters. -/
  caseSensitive : Bool := true
deriving DecidableEq, Repr, Inhabited

/-- The priority of the tag at an index; a tag beyond the list of priorities has none. -/
def TaskTags.priority? (t : TaskTags) (index : Nat) : Option String := t.priorities[index]?

structure Options where
  /-- The tags that mark tasks. -/
  taskTags : TaskTags := {}
  /-- Whether the host checks the use of raw types. -/
  checkGenerics : Bool := false
  /-- Whether the range of a plain reference is checked as the reference is built. -/
  checkTypeReferences : Bool := false
deriving DecidableEq, Repr, Inhabited

end HostBridge
