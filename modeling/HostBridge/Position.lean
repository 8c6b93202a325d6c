import HostBridge.Text.Dotted

/-!
# Source positions

A position is the range of bytes that a node covers in its file: the offset of its first byte and
the offset of its last byte. A node that has no text carries `Position.nonExistent`.

The front end and the host hold offsets in 32 bits with a sign. Here they are integers and sums of
them are exact, which is the same as long as each sum fits in 32 bits. `Offset.Fits` says so, and
`Position.isChecked_layout` and `Task.isChecked_scanComment` say for which names and comments all
sums do.

The host stores a position as one signed 64-bit word, `Position.pack`, with the start in the high
half and the end in the low half. `Position.layout` apportions the range of a dotted name over its
segments.
-/

namespace HostBridge

/-- The range of bytes covered by a node; `stop` is the offset of its last byte. -/
structure Position where
  start : Int
  /-- The offset of the last byte. -/
  stop : Int
deriving DecidableEq, Repr, Inhabited

namespace Position

/-- The range of a node without text. The host takes `stop - start + 1` for the length, so a start
of `-1` needs an end of `-2` for the length to be zero. -/
def nonExistent : Position := ⟨-1, -2⟩

/-- Whether the node has no text. -/
def isNonExistent (p : Position) : Bool := p = nonExistent

/-- The position of a range that the front end reports, given by its first and its last offset. A
range that starts at zero and has no positive end belongs to a node the front end invented. -/
def spanning (start stop : Int) : Position :=
  if start = 0 ∧ stop ≤ 0 then nonExistent else ⟨start, stop⟩

/-! ### The packed form -/

/-- The position as one word: the start in the high 32 bits, the end in the low 32 bits. -/
def pack (p : Position) : Int64 := Int64.ofInt (p.start * 0x100000000 + p.stop % 0x100000000)

/-- The position that a word packs. -/
def unpack (word : Int64) : Position := ⟨word.toInt / 0x100000000, word.toInt.bmod 0x100000000⟩

/-- Packing what a word packs gives the word. -/
theorem pack_unpack (word : Int64) : pack (unpack word) = word := by
  have h : word.toInt / 0x100000000 * 0x100000000 + word.toInt.bmod 0x100000000 % 0x100000000 =
      word.toInt := by
    have : word.toInt.bmod 0x100000000 % 0x100000000 = word.toInt % 0x100000000 := Int.bmod_emod
    omega
  rw [pack, unpack, h, Int64.ofInt_toInt]

/-! ### Laying out a dotted name -/

/-- The positions of segments written one after the other from `start` on, with one byte between
neighbours. -/
def layoutFrom (start : Int) : List String → List Position
  | [] => []
  | segment :: segments =>
    ⟨start, start + segment.utf8ByteSize - 1⟩ ::
      layoutFrom (start + segment.utf8ByteSize + 1) segments

/-- The positions of the segments of a dotted name reported from `start` to `stop`. Only the start
is trusted: the end merely tells whether the name has text, and a name that has none gets the
empty range at its start for each segment. -/
def layout (segments : List String) (start stop : Int) : List Position :=
  if start < stop then layoutFrom start segments
  else segments.map fun _ => ⟨start, start⟩

@[simp] theorem length_layoutFrom (start : Int) (segments : List String) :
    (layoutFrom start segments).length = segments.length := by
  induction segments generalizing start with
  | nil => rfl
  | cons s ss ih => simp [layoutFrom, ih]

@[simp] theorem length_layout (segments : List String) (start stop : Int) :
    (layout segments start stop).length = segments.length := by
  rw [layout]; split <;> simp

/-- The start of the first position, or zero if there is none. -/
def firstStart (positions : List Position) : Int := (positions.head?.map (·.start)).getD 0

/-- The end of the last position, or zero if there is none. -/
def lastStop (positions : List Position) : Int := (positions.getLast?.map (·.stop)).getD 0

/-- The text of a position in a log: its first and last offset. -/
def describe (p : Position) : String :=
  if p.isNonExistent then "Position(<none>)"
  else "Position(" ++ toString p.start ++ "..=" ++ toString p.stop ++ ")"

end Position

end HostBridge
