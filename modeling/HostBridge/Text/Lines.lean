import HostBridge.Text.Pieces

/-!
# Line breaks

A line feed ends a line, and so does a carriage return that no line feed follows. The pair of the
two is one break, recorded at its line feed. Offsets count the bytes of the UTF-8 form.
-/

namespace HostBridge.Text

/-- The offsets of the line breaks of a text whose first byte is at `offset`. -/
def lineBreaksFrom (offset : Int) : List Char → List Int
  | [] => []
  | c :: cs =>
    if c = '\n' ∨ (c = '\r' ∧ cs.head? ≠ some '\n') then
      offset :: lineBreaksFrom (offset + 1) cs
    else lineBreaksFrom (offset + c.utf8Size) cs

/-- The offsets of the line breaks of a text. -/
def lineBreaks (text : String) : List Int := lineBreaksFrom 0 text.toList

/-- The text up to its first line feed. -/
def firstLine (text : String) : String :=
  String.ofList (text.toList.takeWhile (· != '\n'))

/-- The line at the start of a text, which ends before the first line feed or carriage return. -/
def upToBreak (cs : List Char) : List Char :=
  cs.takeWhile fun c => c != '\n' && c != '\r'

end HostBridge.Text
