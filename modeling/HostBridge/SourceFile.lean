import HostBridge.Text.Lines

/-!
# Source files

The files of a build with their texts. A file is registered once, by its path; two paths are the
same if they have the same components, so that a doubled slash, a slash at the end or a `.` in the
middle makes no difference. Registering a path again leaves the first text in place.

* `SourceFiles.get?_register` — the text of a path after registering it is the text it had before,
  if it had one.
-/

namespace HostBridge

/-! ### Paths -/

/-- The components of a path: the root of an absolute path, then its segments. Empty segments stand
for nothing, and neither does a `.` that is not the first component. -/
def pathComponents (path : String) : List String :=
  let pieces := (Text.pieces '/' path.toList).map String.ofList
  let leading :=
    if path.toList.head? = some '/' then ["/"] else pieces.head?.toList.filter (· = ".")
  leading ++ pieces.filter fun piece => piece ≠ "" ∧ piece ≠ "."

/-- Whether two paths name the same file. -/
def samePath (a b : String) : Bool := pathComponents a = pathComponents b

/-! ### Files -/

structure SourceFile where
  /-- The path, as first given. -/
  path : String
  text : String
deriving DecidableEq, Repr, Inhabited

namespace SourceFile

/-- The offsets of the file's line breaks. -/
def lineBreaks (file : SourceFile) : List Int := Text.lineBreaks file.text

/-- The offset of the file's last byte, which is `-1` for an empty file. -/
def lastOffset (file : SourceFile) : Int := file.text.utf8ByteSize - 1

end SourceFile

/-- The registered files of a build, in the order of their registration. -/
structure SourceFiles where
  files : List SourceFile := []
deriving DecidableEq, Repr, Inhabited

namespace SourceFiles

/-- The place of a path among the registered files. -/
def index? (s : SourceFiles) (path : String) : Option Nat :=
  s.files.findIdx? fun file => samePath file.path path

def get? (s : SourceFiles) (path : String) : Option SourceFile :=
  s.files.find? fun file => samePath file.path path

/-- Registers a text under a path, unless the path has one. -/
def register (s : SourceFiles) (path text : String) : SourceFiles :=
  if (s.get? path).isSome then s else ⟨s.files ++ [⟨path, text⟩]⟩

/-- Replaces the text of a registered path. -/
def setText (s : SourceFiles) (path text : String) : SourceFiles :=
  ⟨s.files.map fun file => if samePath file.path path then { file with text } else file⟩

theorem get?_register (s : SourceFiles) (path text : String) :
    (s.register path text).get? path = some ((s.get? path).getD ⟨path, text⟩) := by
  rw [register]
  split
  · next h =>
    obtain ⟨file, hfile⟩ := Option.isSome_iff_exists.1 h
    simp [hfile]
  · next h =>
    rw [Option.not_isSome_iff_eq_none] at h
    rw [h]
    rw [get?] at h ⊢
    rw [List.find?_append, h]
    simp [samePath]

end SourceFiles

end HostBridge
