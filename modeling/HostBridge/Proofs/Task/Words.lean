import HostBridge.Proofs.Task.Message
import HostBridge.Proofs.Task.Occurrence
import HostBridge.Proofs.Task.Settling
import Mathlib.Data.List.Pairwise

/-!
# Tags that are words

An entry records an occurrence. Whether the entries of a comment keep a distance is a matter of the
tags. With `":"` among them a task can end where the next tag starts, and with `"A"` and `"B"` two
tags can stand side by side. Tags of two or more letters allow neither, as long as no two
occurrences overlap: two starts are two bytes apart, and the text of a task, which ends in front of
a blank, a delimiter or the end of a line, does not end with the first letter of a word.

* `entries_eq` — the entries of a comment record its occurrences;
* `spaced_entries` — they keep a distance if the tags are words.
-/

namespace HostBridge.Task

variable {tags : TaskTags} {c : Source.Comment}

/-! ### Entries of occurrences -/

/-- The offset of the last byte of a text, or of the tag if there is no text. -/
def Occurrence.lastByte (o : Occurrence) (lead message : List Char) : Int :=
  if message = [] then o.tagStop - 1
  else o.tagStop + Text.byteLength lead + Text.byteLength message - 1

/-- In either case nothing but the text is counted. -/
theorem Occurrence.lastByte_taskText (o : Occurrence) :
    o.lastByte (taskLead o.rest) (taskText o.rest) =
      o.tagStop + Text.byteLength (taskBody o.rest) - 1 := by
  rw [lastByte]
  split
  · next hnil =>
    rw [taskBody_of_taskText_eq_nil hnil, Text.byteLength_nil]
    omega
  · rw [← taskLead_append_taskText o.rest, Text.byteLength_append]
    omega

/-- The entry for an occurrence that has been found. -/
def Entry.ofFound (f : Nat × Occurrence) : Entry :=
  { tag := f.2.tag, tagIndex := f.1, start := f.2.start
    message := String.ofList (taskText f.2.rest)
    stop := f.2.lastByte (taskLead f.2.rest) (taskText f.2.rest) }

/-- An occurrence has the same entry, whether its bytes are counted with or without a text. -/
theorem Entry.ofOccurrence_eq (commentStart : Int) (tag : String) (place : Nat)
    (o : Nat × List Char) :
    Entry.ofOccurrence commentStart tag place o =
      Entry.ofFound (place, ⟨tag, commentStart + o.1, o.2⟩) := by
  rw [Entry.ofOccurrence, Entry.ofFound, Occurrence.lastByte_taskText]
  dsimp only [Occurrence.tagStop]
  -- without a text no bytes are taken, and there are no blanks to be counted either
  rw [← taskText]
  congr 1
  split
  · next hempty => rw [taskBody_of_taskText_eq_nil (List.isEmpty_iff.1 hempty),
      Text.byteLength_nil]
  · rfl

theorem entries_eq (tags : TaskTags) (c : Source.Comment) :
    entries tags c = (foundIn tags c).map Entry.ofFound := by
  rw [entries, foundIn, List.map_flatMap]
  refine congrArg (List.flatMap · _) (funext fun p => ?_)
  obtain ⟨tag, place⟩ := p
  dsimp only [occurrencesOf]
  rw [List.map_map, List.map_map]
  exact List.map_congr_left fun o _ => Entry.ofOccurrence_eq c.start tag place o

/-! ### Letters -/

/-- **Tags that are words**: each tag that is searched consists of two or more letters. -/
def AreWords (tags : TaskTags) : Prop :=
  ∀ tag ∈ tags.tags, tag ≠ "" →
    2 ≤ tag.toList.length ∧ ∀ letter ∈ tag.toList, letter.isAlpha = true

/-- The tags are read letter by letter. -/
instance (tags : TaskTags) : Decidable (AreWords tags) :=
  decidable_of_iff (∀ tag ∈ tags.tags, tag ≠ "" →
      2 ≤ tag.toList.length ∧ tag.toList.all Char.isAlpha = true) <| by
    simp only [AreWords, List.all_eq_true]

/-- A letter is a letter in either case. -/
theorem isAlpha_foldCase (caseSensitive : Bool) (d : Char) :
    (foldCase caseSensitive d).isAlpha = d.isAlpha := by
  rw [foldCase]
  split
  · rfl
  · rw [Bool.eq_iff_iff, isAlpha_iff, isAlpha_iff, toNat_toLower]
    split <;> omega

/-- Where a word can be read, there are two letters at least. -/
theorem Occurrence.IsIn.letters {place : Nat} {o : Occurrence} (h : o.IsIn tags c place)
    (hwords : AreWords tags) :
    ∃ (before : List Char) (x y : Char) (others : List Char),
      c.text.toList = before ++ x :: y :: others ++ o.rest ∧
        o.start = c.start + Text.byteLength before ∧
        Text.byteLength (x :: y :: others) = o.tag.utf8ByteSize ∧
        x.isAlpha = true ∧ y.isAlpha = true := by
  obtain ⟨before, found, htext, hstart, hfound⟩ := h.split
  obtain ⟨htwo, hletters⟩ := hwords o.tag (List.mem_of_getElem? h.tag_eq) h.nonempty
  have hlength := length_eq_of_map_foldCase hfound
  have hbytes := byteLength_eq_of_map_foldCase hfound
  have halpha (d : Char) (hd : d ∈ found) : d.isAlpha = true := by
    have hmem := List.mem_map_of_mem (f := foldCase tags.caseSensitive) hd
    rw [hfound] at hmem
    obtain ⟨letter, hletter, heq⟩ := List.mem_map.1 hmem
    rw [← isAlpha_foldCase tags.caseSensitive d, ← heq, isAlpha_foldCase]
    exact hletters letter hletter
  match found with
  | [] => exact absurd htwo (by simp [← hlength])
  | [_] => exact absurd htwo (by simp [← hlength])
  | x :: y :: others =>
    rw [Text.byteLength_toList] at hbytes
    exact ⟨before, x, y, others, htext, hstart, hbytes, halpha x (by simp), halpha y (by simp)⟩

/-! ### Distances -/

/-- Two occurrences do not overlap. -/
def Occurrence.Apart (o o' : Occurrence) : Prop := o.tagStop ≤ o'.start ∨ o'.tagStop ≤ o.start

instance (o o' : Occurrence) : Decidable (o.Apart o') :=
  inferInstanceAs (Decidable (o.tagStop ≤ o'.start ∨ o'.tagStop ≤ o.start))

/-- **Occurrences that take disjoint ranges of bytes**. -/
def NonOverlapping (found : List (Nat × Occurrence)) : Prop :=
  found.Pairwise fun f f' => f.2.Apart f'.2

instance (found : List (Nat × Occurrence)) : Decidable (NonOverlapping found) :=
  inferInstanceAs (Decidable (found.Pairwise fun f f' => f.2.Apart f'.2))

theorem NonOverlapping.eq_or_apart {found : List (Nat × Occurrence)} (h : NonOverlapping found)
    {f f' : Nat × Occurrence} (hf : f ∈ found) (hf' : f' ∈ found) : f = f' ∨ f.2.Apart f'.2 := by
  have : Std.Symm fun f f' : Nat × Occurrence => f.2.Apart f'.2 := ⟨fun _ _ => Or.symm⟩
  by_cases heq : f = f'
  · exact Or.inl heq
  · exact Or.inr (List.Pairwise.forall h hf hf' heq)

/-- A word is longer than one byte. -/
theorem Occurrence.IsIn.start_add_two_le {place : Nat} {o : Occurrence} (h : o.IsIn tags c place)
    (hwords : AreWords tags) : o.start + 2 ≤ o.tagStop := by
  obtain ⟨_, x, y, others, -, -, hbytes, hx, hy⟩ := h.letters hwords
  rw [Text.byteLength_cons, Text.byteLength_cons, utf8Size_of_isAlpha hx,
    utf8Size_of_isAlpha hy] at hbytes
  rw [tagStop]
  omega

/-- **The text of a task does not end with the first letter of a word** further on. -/
theorem Occurrence.IsIn.lastByte_ne_start {place place' : Nat} {o o' : Occurrence}
    (h : o.IsIn tags c place) (h' : o'.IsIn tags c place') (hwords : AreWords tags)
    (hafter : o.tagStop ≤ o'.start) :
    o.lastByte (taskLead o.rest) (taskText o.rest) ≠ o'.start := by
  intro hstart
  rw [lastByte_taskText] at hstart
  obtain ⟨before, x, y, others, htext, hbefore, hbytes, -, -⟩ := h.letters hwords
  obtain ⟨before', x', y', others', htext', hbefore', -, hx', hy'⟩ := h'.letters hwords
  have htag : o.tagStop = c.start + Text.byteLength (before ++ x :: y :: others) := by
    rw [tagStop, Text.byteLength_append, hbytes, hbefore]
    omega
  -- the word is in what follows the tag
  have hfront : before ++ x :: y :: others <+: before' := by
    refine Text.isPrefix_of_byteLength_le ⟨o.rest, htext.symm⟩ ?_ (by omega)
    exact ⟨x' :: y' :: others' ++ o'.rest, by rw [htext', List.append_assoc]⟩
  obtain ⟨mid, hmid⟩ := hfront
  have hrest : o.rest = mid ++ x' :: y' :: (others' ++ o'.rest) := by
    have hboth : before ++ x :: y :: others ++ o.rest =
        before ++ x :: y :: others ++ (mid ++ x' :: y' :: (others' ++ o'.rest)) := by
      rw [← htext, htext', ← hmid]
      simp only [List.append_assoc, List.cons_append]
    exact List.append_cancel_left hboth
  refine ne_byteLength_of_letters hrest hx' hy' ?_
  have hlength := congrArg Text.byteLength hmid
  rw [Text.byteLength_append] at hlength
  omega

theorem spaced_entries (hwords : AreWords tags) (hdisjoint : NonOverlapping (foundIn tags c)) :
    Spaced (entries tags c) := by
  rw [entries_eq]
  -- two starts are the same or as far apart as the shorter tag is long
  have hapart {f f' : Nat × Occurrence} (hf : f ∈ foundIn tags c) (hf' : f' ∈ foundIn tags c) :
      f = f' ∨ f.2.Apart f'.2 := hdisjoint.eq_or_apart hf hf'
  refine ⟨fun e he => ?_, fun a ha b hb => ?_, fun a ha b hb => ?_⟩
  · obtain ⟨f, -, rfl⟩ := List.mem_map.1 he
    rfl
  all_goals
    obtain ⟨f, hf, rfl⟩ := List.mem_map.1 ha
    obtain ⟨f', hf', rfl⟩ := List.mem_map.1 hb
    have htwo := (isIn_of_mem_foundIn hf).start_add_two_le hwords
    have htwo' := (isIn_of_mem_foundIn hf').start_add_two_le hwords
    dsimp only [Entry.ofFound]
  · rcases hapart hf hf' with rfl | hle | hle
    · omega
    · omega
    · omega
  · have hlast := f.2.lastByte_taskText
    rcases hapart hf hf' with rfl | hle | hle
    · omega
    · exact (isIn_of_mem_foundIn hf).lastByte_ne_start (isIn_of_mem_foundIn hf') hwords hle
    · omega

end HostBridge.Task
