import HostBridge.Options
import HostBridge.Report.Task
import HostBridge.Source.Module
import HostBridge.Task.Occurrence
import HostBridge.Text.Affix
import HostBridge.Text.Blank
import HostBridge.Text.Lines

/-!
# Task tags in comments

Each occurrence of a tag in a comment becomes a task marker. The text of the task is the rest of the
line, without blanks around it and without the delimiter that ends the comment.

Occurrences on one line get in each other's way. A tag that stands one byte after another one
continues it: the two share the text and the end of the later one. Any other occurrence ends before
the next one starts. These relations are settled pair by pair, `settle`, and each pair sees what the
pairs before it have changed.

Starts and ends are exact sums of offsets. `scanComment?` is the same scan for offsets of 32 bits.
-/

namespace HostBridge.Task

/-- An occurrence of a tag, with its relation to others. -/
structure Entry where
  tag : String
  /-- The place of the tag among the tags. -/
  tagIndex : Nat
  start : Int
  /-- The offset of the last byte. -/
  stop : Int
  message : String
  /-- The place of the entry that continues this one. -/
  next : Option Nat := none
deriving DecidableEq, Repr, Inhabited

/-- The offset just past the tag. -/
def Entry.tagStop (e : Entry) : Int := e.start + e.tag.utf8ByteSize

/-! ### Finding entries -/

/-- The text after a tag as far as it belongs to the task: the rest of the line without the
delimiter that ends the comment and without blanks at the end. -/
def taskBody (rest : List Char) : List Char :=
  let line := Text.trimEnd (Text.upToBreak rest)
  match Text.beforeSuffix? ['*', '/'] line with
  | some body => Text.trimEnd body
  | none => Text.trimEnd line

/-- The entry for an occurrence that starts `offset` bytes into a comment. A task without text ends
with its tag. -/
def Entry.ofOccurrence (commentStart : Int) (tag : String) (tagIndex : Nat)
    (o : Nat × List Char) : Entry :=
  let start := commentStart + o.1
  let body := taskBody o.2
  let message := Text.trimStart body
  let taken := if message.isEmpty then 0 else Text.byteLength body
  { tag, tagIndex, start, message := String.ofList message
    stop := start + tag.utf8ByteSize + taken - 1 }

/-- The entries of a comment: tag by tag, the occurrences of each from left to right. -/
def entries (tags : TaskTags) (c : Source.Comment) : List Entry :=
  tags.tags.zipIdx.flatMap fun (tag, tagIndex) =>
    (occurrences tags.caseSensitive tag c.text).map (.ofOccurrence c.start tag tagIndex)

/-! ### Relating entries -/

/-- The last of the entries that continue the one at an index, within a number of links. -/
def follow (es : List Entry) : Nat → Nat → Nat
  | 0, index => index
  | links + 1, index =>
    match es[index]?.bind (·.next) with
    | some next => follow es links next
    | none => index

/-- The entry whose text and end are reported for the one at an index. -/
def lastContinuation (es : List Entry) (index : Nat) : Nat := follow es es.length index

/-- The end that is reported for the entry at an index. -/
def reportedStop (es : List Entry) (index : Nat) : Int :=
  (es[lastContinuation es index]?.map (·.stop)).getD 0

/-- Settles the relation of two entries: the second continues the first, or the one that starts
earlier is cut off before the other if it reaches into it. -/
def relate (es : List Entry) (i j : Nat) : List Entry :=
  -- both are looked up anew, since the pairs before may have changed them
  match es[i]?, es[j]? with
  | some a, some b =>
    if a.tagStop + 1 = b.start then es.set i { a with next := some j }
    else if b.start < reportedStop es i ∧ a.start < b.start then
      es.set i { a with stop := b.start - 1 }
    else if a.start < reportedStop es j ∧ b.start < a.start then
      es.set j { b with stop := a.start - 1 }
    else es
  | _, _ => es

/-- The ordered pairs of different indices below `n`. -/
def indexPairs (n : Nat) : List (Nat × Nat) :=
  (List.range n).flatMap fun i => ((List.range n).filter (· ≠ i)).map fun j => (i, j)

/-- Settles the relations of all entries. -/
def settle (es : List Entry) : List Entry :=
  (indexPairs es.length).foldl (fun es (i, j) => relate es i j) es

/-! ### Markers -/

/-- The marker for an entry. -/
def Entry.marker (tags : TaskTags) (es : List Entry) (index : Nat) (e : Entry) : TaskMarker :=
  let reported := es.getD (lastContinuation es index) e
  { tag := e.tag, message := reported.message, priority := tags.priority? e.tagIndex,
    start := e.start, stop := reported.stop }

def scanComment (tags : TaskTags) (c : Source.Comment) : List TaskMarker :=
  let es := settle (entries tags c)
  es.zipIdx.map fun (e, index) => e.marker tags es index

def scan (tags : TaskTags) (comments : List Source.Comment) : List TaskMarker :=
  comments.flatMap (scanComment tags)

end HostBridge.Task
