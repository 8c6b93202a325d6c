import HostBridge.Position

/-!
# Which positions are valid

The host takes a position for one of two things: a range that does not end before it starts, or the
mark of a node without text. This file says which of them come out of the two ways in which a range
of the front end becomes a position.

* `Position.spanning_eq_nonExistent_iff` — when a single range is taken for that of a node without
  text;
* `Position.firstStart_layout`, `Position.lastStop_layout` — the range of a dotted name that is laid
  out over its segments: it starts where the name starts, and the lengths of the segments tell where
  it ends.
-/

namespace HostBridge.Position

variable {start stop : Int} {segments : List String}

/-- **A valid position** does not end before it starts, or is that of a node without text. -/
def IsValid (p : Position) : Prop := p.start ≤ p.stop ∨ p = nonExistent

instance : DecidablePred IsValid := fun _ => inferInstanceAs (Decidable (_ ∨ _))

/-! ### Single ranges -/

/-- **Nodes without text.** A range counts as that of a node without text if it starts at zero and
does not go further, or if it is the mark itself. -/
theorem spanning_eq_nonExistent_iff :
    spanning start stop = nonExistent ↔ (start = 0 ∧ stop ≤ 0) ∨ (start = -1 ∧ stop = -2) := by
  unfold spanning
  split
  · next h => exact iff_of_true rfl (.inl h)
  · next h =>
    rw [nonExistent, mk.injEq]
    exact ⟨.inr, fun hor => hor.resolve_left h⟩

/-- Any other range stays as it is. -/
theorem spanning_of_not (h : ¬ (start = 0 ∧ stop ≤ 0)) : spanning start stop = ⟨start, stop⟩ :=
  if_neg h

theorem isValid_spanning_iff :
    (spanning start stop).IsValid ↔
      start ≤ stop ∨ (start = 0 ∧ stop ≤ 0) ∨ (start = -1 ∧ stop = -2) := by
  rw [IsValid, spanning_eq_nonExistent_iff]
  by_cases h : start = 0 ∧ stop ≤ 0
  · exact iff_of_true (.inr (.inl h)) (.inr (.inl h))
  · rw [spanning_of_not h]

/-! ### Dotted names -/

/-- A name starts with its first segment. -/
theorem firstStart_layout (h : segments ≠ []) (start stop : Int) :
    firstStart (layout segments start stop) = start := by
  obtain ⟨s, ss, rfl⟩ := List.exists_cons_of_ne_nil h
  unfold layout
  split <;> rfl

/-- The bytes of a segment and of what is joined to it with a dot. -/
theorem utf8ByteSize_join_cons (s t : String) (ts : List String) :
    (Dotted.join (s :: t :: ts)).utf8ByteSize =
      s.utf8ByteSize + 1 + (Dotted.join (t :: ts)).utf8ByteSize := by
  have hdot : ".".utf8ByteSize = 1 := rfl
  rw [Dotted.join, Dotted.join, String.intercalate_cons_cons, String.utf8ByteSize_append,
    String.utf8ByteSize_append, hdot]

/-- Segments that are laid out take as many bytes as the name that joins them. -/
theorem lastStop_layoutFrom (h : segments ≠ []) (start : Int) :
    lastStop (layoutFrom start segments) = start + (Dotted.join segments).utf8ByteSize - 1 := by
  induction segments generalizing start with
  | nil => exact absurd rfl h
  | cons s ss ih =>
    cases ss with
    | nil =>
      rw [Dotted.join, String.intercalate_singleton]
      rfl
    | cons t ts =>
      -- the last segment is the last one behind the first
      have hlast := ih (List.cons_ne_nil t ts) (start + s.utf8ByteSize + 1)
      rw [utf8ByteSize_join_cons]
      rw [layoutFrom, lastStop, layoutFrom, List.getLast?_cons_cons]
      rw [layoutFrom, lastStop] at hlast
      rw [hlast]
      push_cast
      omega

/-- **A name ends with its last byte** if the range has any, and otherwise where it starts. -/
theorem lastStop_layout (h : segments ≠ []) (start stop : Int) :
    lastStop (layout segments start stop) =
      if start < stop then start + (Dotted.join segments).utf8ByteSize - 1 else start := by
  unfold layout
  split
  · exact lastStop_layoutFrom h start
  · rw [lastStop, List.getLast?_map, List.getLast?_eq_some_getLast h]
    rfl

end HostBridge.Position
