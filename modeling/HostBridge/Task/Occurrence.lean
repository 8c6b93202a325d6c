import HostBridge.Text.Bytes

/-!
# Occurrences of a tag

The occurrences of a tag in a text are found from left to right and do not overlap. Each comes with
the offset of its first byte and with the text that follows it.

* `split_of_mem_occurrences` — each occurrence splits the text into what precedes it, the tag, and
  what follows it.
-/

namespace HostBridge.Task

/-- A character for comparison: as it is, or with capital ASCII letters as small ones. -/
def foldCase (caseSensitive : Bool) (c : Char) : Char := if caseSensitive then c else c.toLower

/-- Whether a text begins with a tag, up to the case of letters unless it counts. -/
def beginsWith (caseSensitive : Bool) (tag cs : List Char) : Bool :=
  (tag.map (foldCase caseSensitive)).isPrefixOf
    ((cs.take tag.length).map (foldCase caseSensitive))

/-- The occurrences of a tag in a text whose first byte is at `offset`. The first `skip` characters
belong to the occurrence before. -/
def occurrencesFrom (caseSensitive : Bool) (tag : List Char) (offset skip : Nat) :
    List Char → List (Nat × List Char)
  | [] => []
  | c :: cs =>
    if skip = 0 ∧ beginsWith caseSensitive tag (c :: cs) then
      (offset, (c :: cs).drop tag.length) ::
        occurrencesFrom caseSensitive tag (offset + c.utf8Size) (tag.length - 1) cs
    else occurrencesFrom caseSensitive tag (offset + c.utf8Size) (skip - 1) cs

/-- The occurrences of a tag in a text. An empty tag has none. -/
def occurrences (caseSensitive : Bool) (tag : String) (text : String) : List (Nat × List Char) :=
  if tag.isEmpty then [] else occurrencesFrom caseSensitive tag.toList 0 0 text.toList

theorem split_of_mem_occurrencesFrom {caseSensitive : Bool} {tag : List Char} {offset skip : Nat}
    {cs : List Char} {o : Nat × List Char}
    (h : o ∈ occurrencesFrom caseSensitive tag offset skip cs) :
    ∃ before found, cs = before ++ found ++ o.2 ∧ o.1 = offset + Text.byteLength before ∧
      found.map (foldCase caseSensitive) = tag.map (foldCase caseSensitive) := by
  induction cs generalizing offset skip with
  | nil => simp [occurrencesFrom] at h
  | cons c cs ih =>
    rw [occurrencesFrom] at h
    have later : ∀ skip', o ∈ occurrencesFrom caseSensitive tag (offset + c.utf8Size) skip' cs →
        ∃ before found, c :: cs = before ++ found ++ o.2 ∧ o.1 = offset + Text.byteLength before ∧
          found.map (foldCase caseSensitive) = tag.map (foldCase caseSensitive) := by
      intro skip' h'
      obtain ⟨before, found, hcs, ho, hfound⟩ := ih h'
      refine ⟨c :: before, found, by simp [hcs], ?_, hfound⟩
      rw [ho]
      simp
      omega
    split at h
    · next hc =>
      rcases List.mem_cons.1 h with rfl | h
      · refine ⟨[], (c :: cs).take tag.length, ?_, by simp, ?_⟩
        · rw [List.nil_append, List.take_append_drop]
        · have hp := List.isPrefixOf_iff_prefix.1 hc.2
          have hl : ((c :: cs).take tag.length).length ≤ tag.length := by
            rw [List.length_take]; exact Nat.min_le_left _ _
          exact (hp.eq_of_length_le (by simpa only [List.length_map] using hl)).symm
      · exact later _ h
    · exact later _ h

/-- Each occurrence splits the text into what precedes it, the tag, and what follows it. -/
theorem split_of_mem_occurrences {caseSensitive : Bool} {tag text : String} {o : Nat × List Char}
    (h : o ∈ occurrences caseSensitive tag text) :
    ∃ before found, text.toList = before ++ found ++ o.2 ∧ o.1 = Text.byteLength before ∧
      found.map (foldCase caseSensitive) = tag.toList.map (foldCase caseSensitive) := by
  rw [occurrences] at h
  split at h
  · simp at h
  · obtain ⟨before, found, hcs, ho, hfound⟩ := split_of_mem_occurrencesFrom h
    exact ⟨before, found, hcs, by omega, hfound⟩

end HostBridge.Task
