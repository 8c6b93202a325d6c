import HostBridge.Proofs.Task.Overlap

/-!
# Markers stay inside their comment

A tag is searched byte by byte, and where the case of letters does not count it is searched in a
copy of the comment. The offsets that are found there are then used to cut the comment itself. This
is safe for two reasons. A copied character takes as many bytes as the original, so both have the
same boundaries between characters, and the bytes of a tag are whole characters, so they agree with
bytes of the copy only from a boundary to a boundary, `isBoundary_of_matchesAt`.

What is reported is inside of the comment, too, although it is put together from two entries: the
tag and the start are those of one, the text and the end those of the last one of its chain. The
chain leads forward, and no cut brings an end back before the start of its own entry.

* `matchesAt_of_mem_occurrences` — an occurrence is such an agreement of bytes, and what follows it
  is cut off behind it;
* `isWithin_of_mem_scanComment`, `forall₂_standsFor` — a marker is inside of its comment, and there
  is one for each occurrence;
* `scanComment_within` — all of this.
-/

namespace HostBridge.Task

open Offset (IsChecked)
open Relation (ReflTransGen)

variable {tags : TaskTags} {c : Source.Comment} {caseSensitive : Bool} {tag text : String}
  {offset i k : Nat} {es : List Entry} {a e : Entry} {m : TaskMarker}

/-! ### Bytes and characters -/

/-- The copy of a text that is searched. -/
def searched (caseSensitive : Bool) (text : String) : String :=
  String.ofList (text.toList.map (foldCase caseSensitive))

/-- **A match**: the bytes of the copy from an offset on are those of the tag. -/
def MatchesAt (caseSensitive : Bool) (tag text : String) (offset : Nat) : Prop :=
  (searched caseSensitive text).toByteArray.extract offset (offset + tag.utf8ByteSize) =
    (searched caseSensitive tag).toByteArray

/-- **A boundary between characters** is the number of bytes of some characters at the beginning of
the text. -/
def IsBoundary (text : String) (offset : Nat) : Prop := String.Pos.Raw.IsValid text ⟨offset⟩

theorem utf8ByteSize_ofList (cs : List Char) :
    (String.ofList cs).utf8ByteSize = Text.byteLength cs := by
  rw [← Text.byteLength_toList, String.toList_ofList]

theorem utf8ByteSize_searched (caseSensitive : Bool) (text : String) :
    (searched caseSensitive text).utf8ByteSize = text.utf8ByteSize := by
  rw [searched, utf8ByteSize_ofList, byteLength_map_foldCase, Text.byteLength_toList]

/-- The copy has the same boundaries. -/
theorem isBoundary_searched_iff :
    IsBoundary (searched caseSensitive text) offset ↔ IsBoundary text offset := by
  have hsame (n : Nat) :
      (String.ofList ((searched caseSensitive text).toList.take n)).utf8ByteSize =
        (String.ofList (text.toList.take n)).utf8ByteSize := by
    rw [utf8ByteSize_ofList, utf8ByteSize_ofList, searched, String.toList_ofList, ← List.map_take,
      byteLength_map_foldCase]
  rw [IsBoundary, IsBoundary, String.Pos.Raw.isValid_iff_exists_take_toList,
    String.Pos.Raw.isValid_iff_exists_take_toList]
  exact exists_congr fun n => by rw [hsame]

/-- **A match does not tear a character.** It starts and ends between characters of the text. -/
theorem isBoundary_of_matchesAt (htag : tag ≠ "") (h : MatchesAt caseSensitive tag text offset) :
    IsBoundary text offset ∧ IsBoundary text (offset + tag.utf8ByteSize) := by
  have hbytes : tag.utf8ByteSize ≠ 0 := fun hzero =>
    htag (String.utf8ByteSize_eq_zero_iff.1 hzero)
  -- there are as many bytes in the text as the tag needs
  have hsize := congrArg ByteArray.size h
  rw [ByteArray.size_extract, String.size_toByteArray, String.size_toByteArray,
    utf8ByteSize_searched, utf8ByteSize_searched] at hsize
  have hend : offset + tag.utf8ByteSize ≤ (searched caseSensitive text).utf8ByteSize := by
    rw [utf8ByteSize_searched]
    omega
  have hwhole : ((searched caseSensitive text).toByteArray.extract offset
      (offset + tag.utf8ByteSize)).IsValidUTF8 := by
    rw [h]
    exact (searched caseSensitive tag).isValidUTF8
  have hboth := (String.Pos.Raw.isValidUTF8_extract_iff (s := searched caseSensitive text) ⟨offset⟩
    ⟨offset + tag.utf8ByteSize⟩ (Nat.le_add_right _ _) hend).1 hwhole
  have hne : (⟨offset⟩ : String.Pos.Raw) ≠ ⟨offset + tag.utf8ByteSize⟩ := fun heq => by
    have := congrArg String.Pos.Raw.byteIdx heq
    dsimp only at this
    omega
  obtain ⟨hstart, hstop⟩ := hboth.resolve_left hne
  exact ⟨isBoundary_searched_iff.1 hstart, isBoundary_searched_iff.1 hstop⟩

/-- The bytes between the ends of two texts. -/
theorem extract_middle (s t u : String) :
    (s ++ t ++ u).toByteArray.extract s.utf8ByteSize (s.utf8ByteSize + t.utf8ByteSize) =
      t.toByteArray := by
  rw [String.append_assoc, String.toByteArray_append, String.toByteArray_append,
    ← String.size_toByteArray, ← String.size_toByteArray]
  calc (s.toByteArray ++ (t.toByteArray ++ u.toByteArray)).extract s.toByteArray.size
        (s.toByteArray.size + t.toByteArray.size)
      = (t.toByteArray ++ u.toByteArray).extract 0 t.toByteArray.size :=
        ByteArray.extract_append_size_add (i := 0)
    _ = t.toByteArray := ByteArray.extract_append_eq_left rfl

/-- **Occurrences are matches**, and the text behind one starts where the match ends. -/
theorem matchesAt_of_mem_occurrences {o : Nat × List Char}
    (h : o ∈ occurrences caseSensitive tag text) :
    MatchesAt caseSensitive tag text o.1 ∧
      ∃ front, text = front ++ String.ofList o.2 ∧
        front.utf8ByteSize = o.1 + tag.utf8ByteSize := by
  obtain ⟨before, found, htext, hoffset, hfound⟩ := split_of_mem_occurrences h
  have hbytes := byteLength_eq_of_map_foldCase hfound
  rw [Text.byteLength_toList] at hbytes
  constructor
  · have hcopy : searched caseSensitive text =
        String.ofList (before.map (foldCase caseSensitive)) ++ searched caseSensitive tag ++
          String.ofList (o.2.map (foldCase caseSensitive)) := by
      rw [searched, searched, htext, ← hfound, ← String.ofList_append, ← String.ofList_append,
        List.map_append, List.map_append]
    have hfront : (String.ofList (before.map (foldCase caseSensitive))).utf8ByteSize = o.1 := by
      rw [utf8ByteSize_ofList, byteLength_map_foldCase, hoffset]
    rw [MatchesAt, hcopy, ← hfront, ← utf8ByteSize_searched caseSensitive tag]
    exact extract_middle _ _ _
  · refine ⟨String.ofList (before ++ found), ?_, ?_⟩
    · rw [← String.ofList_append, ← htext, String.ofList_toList]
    · rw [utf8ByteSize_ofList, Text.byteLength_append, hbytes, hoffset]

/-! ### What is reported -/

/-- **A marker inside of a comment.** It stands for a place where its tag can be read, ends there or
further on in the comment, and its text is a part of one line of the comment without blanks around
it. -/
structure IsWithin (tags : TaskTags) (c : Source.Comment) (m : TaskMarker) : Prop where
  tag_mem : m.tag ∈ tags.tags
  start_le : c.start ≤ m.start
  le_stop : m.start ≤ m.stop
  stop_le : m.stop ≤ c.start + c.text.utf8ByteSize - 1
  reads : ∃ before found rest, c.text = before ++ found ++ rest ∧
    m.start = c.start + before.utf8ByteSize ∧ found.utf8ByteSize = m.tag.utf8ByteSize ∧
    if tags.caseSensitive then found = m.tag
    else found.toList.map Char.toLower = m.tag.toList.map Char.toLower
  contiguous : ∃ before after, c.text = before ++ m.message ++ after
  oneLine : '\n' ∉ m.message.toList ∧ '\r' ∉ m.message.toList
  starts : ∀ d, m.message.toList.head? = some d → Text.isBlank d = false
  ends : ∀ d, m.message.toList.getLast? = some d → Text.isBlank d = false

/-- A chain leads forward. -/
theorem start_le_of_chain
    (h : ReflTransGen (fun m n => continuation? es m = some n) i k) (ha : es[i]? = some a)
    (he : es[k]? = some e) : a.start ≤ e.start := by
  induction h using ReflTransGen.head_induction_on generalizing a with
  | refl => exact Int.le_of_eq (congrArg Entry.start (Option.some.inj (ha.symm.trans he)))
  | head hnext _ ih =>
    obtain ⟨b, hb, hstart⟩ := continuation?_eq_some ha hnext
    have := ih hb
    have := start_le_tagStop a
    omega

/-- The text of a task ends in the comment of its tag. -/
theorem lastByte_le_of_mem_foundIn {f : Nat × Occurrence} (hf : f ∈ foundIn tags c) :
    f.2.lastByte (taskLead f.2.rest) (taskText f.2.rest) ≤ c.start + c.text.utf8ByteSize - 1 := by
  obtain ⟨-, o, ho, hstart, hrest⟩ := mem_occurrencesOf.1 (mem_foundIn.1 hf).2
  have hwithin := byteLength_le_of_mem_occurrences ho
  rw [Occurrence.lastByte_taskText, Occurrence.tagStop, hstart, hrest]
  omega

/-- The tag can be read where its occurrence starts. -/
theorem Occurrence.IsIn.reads {place : Nat} {o : Occurrence} (h : o.IsIn tags c place) :
    ∃ before found rest, c.text = before ++ found ++ rest ∧
      o.start = c.start + before.utf8ByteSize ∧ found.utf8ByteSize = o.tag.utf8ByteSize ∧
      if tags.caseSensitive then found = o.tag
      else found.toList.map Char.toLower = o.tag.toList.map Char.toLower := by
  obtain ⟨before, found, htext, hstart, hfound⟩ := h.split
  have hbytes := byteLength_eq_of_map_foldCase hfound
  refine ⟨String.ofList before, String.ofList found, String.ofList o.rest, ?_, ?_, ?_, ?_⟩
  · rw [← String.ofList_append, ← String.ofList_append, ← htext, String.ofList_toList]
  · rw [utf8ByteSize_ofList, hstart]
  · rw [utf8ByteSize_ofList, hbytes, Text.byteLength_toList]
  · rw [String.toList_ofList]
    cases hcase : tags.caseSensitive with
    | true =>
      have hfold : foldCase true = id := rfl
      rw [hcase, hfold, List.map_id, List.map_id] at hfound
      rw [if_pos rfl, hfound, String.ofList_toList]
    | false =>
      rw [hcase] at hfound
      exact hfound

/-- **A marker is inside of its comment.** -/
theorem isWithin_of_mem_scanComment (hm : m ∈ scanComment tags c) : IsWithin tags c m := by
  obtain ⟨i, hi⟩ := List.mem_iff_getElem?.1 hm
  obtain ⟨a, k, e, ha, hend, he, rfl⟩ := eq_of_scanComment hi
  -- both entries record occurrences
  have hforward := start_le_of_chain hend.chain ha he
  have hgoes := (fresh_entries (List.mem_of_getElem? he)).2
  rw [entries_eq] at ha he
  rw [List.getElem?_map, Option.map_eq_some_iff] at ha he
  obtain ⟨f, hf, rfl⟩ := ha
  obtain ⟨g, hg, rfl⟩ := he
  have hfirst := isIn_of_mem_foundIn (List.mem_of_getElem? hf)
  have hlast := isIn_of_mem_foundIn (List.mem_of_getElem? hg)
  have htask := isTask_taskText g.2.rest
  obtain ⟨closing, after, hrest, hline, -, -⟩ := htask.line
  have hbreak (d : Char) (hd : d ∈ taskText g.2.rest) : ¬ IsBreak d := hline d (by simp [hd])
  exact
    { tag_mem := List.mem_of_getElem? hfirst.tag_eq
      start_le := by
        obtain ⟨before, -, -, -, hstart, -⟩ := hfirst.reads
        dsimp only [Entry.ofFound]
        omega
      -- no cut brings the end back before the start of the last entry
      le_stop := Int.le_trans hforward (start_le_stopInTurn hgoes)
      stop_le := Int.le_trans (stopInTurn_le _ _ _)
        (lastByte_le_of_mem_foundIn (List.mem_of_getElem? hg))
      reads := hfirst.reads
      contiguous := by
        obtain ⟨before, found, htext, -⟩ := hlast.split
        refine ⟨String.ofList (before ++ found ++ taskLead g.2.rest),
          String.ofList (closing ++ after), ?_⟩
        dsimp only [Entry.ofFound]
        rw [← String.ofList_append, ← String.ofList_append, ← String.toList_inj,
          String.toList_ofList, htext]
        conv => lhs; rw [hrest]
        simp only [List.append_assoc]
      oneLine := by
        dsimp only [Entry.ofFound]
        rw [String.toList_ofList]
        exact ⟨fun hmem => hbreak _ hmem (.inl rfl), fun hmem => hbreak _ hmem (.inr rfl)⟩
      starts := by
        dsimp only [Entry.ofFound]
        rw [String.toList_ofList]
        exact htask.starts
      ends := by
        intro d hd
        dsimp only [Entry.ofFound] at hd
        rw [String.toList_ofList] at hd
        refine htask.ends d ?_
        rw [List.getLast?_append, hd, Option.some_or] }

/-- **Markers stand for occurrences**, in order. -/
theorem forall₂_standsFor (tags : TaskTags) (c : Source.Comment) :
    List.Forall₂ (fun f m => m.tag = f.2.tag ∧ m.start = f.2.start) (foundIn tags c)
      (scanComment tags c) := by
  have hfresh : ∀ e ∈ entries tags c, e.next = none := fun e he => (fresh_entries he).1
  have hlength : (scanComment tags c).length = (foundIn tags c).length := by
    rw [scanComment, List.length_map, List.length_zipIdx, (inTurn_settle hfresh).1, entries_eq,
      List.length_map]
  refine List.forall₂_iff_get.2 ⟨hlength.symm, fun i hi hi' => ?_⟩
  obtain ⟨a, k, e, ha, -, -, hm⟩ := eq_of_scanComment (List.getElem?_eq_getElem hi')
  rw [entries_eq, List.getElem?_map, List.getElem?_eq_getElem hi] at ha
  obtain rfl := Option.some.inj ha
  rw [List.get_eq_getElem, List.get_eq_getElem, hm]
  exact ⟨rfl, rfl⟩

/-- **The scan stays inside of a comment**, be the tags as they may. Wherever the bytes of a tag are
found in the copy that is searched, the comment can be cut in front of them and behind them without
tearing a character. The occurrences of a tag are found in that way, and what follows one is cut off
behind it. There is a marker for each of them and no other one. A marker starts and ends in the
comment, where its tag can be read, and its text is a part of one line of the comment, without
blanks around it. The markers are those of a scan with the sums of its offsets checked, which gives
them if 32 bits have room for the sums. -/
theorem scanComment_within (tags : TaskTags) (c : Source.Comment) :
    (∀ tag ∈ tags.tags, tag ≠ "" → ∀ offset, MatchesAt tags.caseSensitive tag c.text offset →
      IsBoundary c.text offset ∧ IsBoundary c.text (offset + tag.utf8ByteSize)) ∧
    (∀ tag ∈ tags.tags, ∀ o ∈ occurrences tags.caseSensitive tag c.text,
      tag ≠ "" ∧ MatchesAt tags.caseSensitive tag c.text o.1 ∧
        ∃ front, c.text = front ++ String.ofList o.2 ∧
          front.utf8ByteSize = o.1 + tag.utf8ByteSize) ∧
    IsFound tags c (foundIn tags c) ∧
    IsChecked c.Fits (scanComment? tags c) (scanComment tags c) ∧
    ∀ ms, scanComment? tags c = some ms →
      List.Forall₂ (fun f m => m.tag = f.2.tag ∧ m.start = f.2.start) (foundIn tags c) ms ∧
      ∀ m ∈ ms, IsWithin tags c m := by
  refine ⟨fun tag _ htag offset h => isBoundary_of_matchesAt htag h, fun tag _ o ho => ⟨?_, ?_⟩,
    isFound_foundIn tags c, isChecked_scanComment tags c, fun ms hms => ?_⟩
  · rintro rfl
    exact absurd ho List.not_mem_nil
  · exact matchesAt_of_mem_occurrences ho
  · obtain rfl := (isChecked_scanComment tags c).exact ms hms
    exact ⟨forall₂_standsFor tags c, fun m hm => isWithin_of_mem_scanComment hm⟩

/-- A comment with characters of two bytes, in front of the tags and behind them. -/
def umlauts : Source.Comment where
  kind := .block
  text := "/* ö TODO fixme später */"
  start := 100
  stop := 126
  firstLine := 1
  lastLine := 1

/-- The first tag goes on to the second one, and neither of them is written in the case of the
comment. -/
theorem scanComment_within_umlauts :
    IsBoundary umlauts.text 6 ∧ IsBoundary umlauts.text 10 ∧
      IsWithin { tags := ["todo", "FIXME"], caseSensitive := false } umlauts
        ⟨"todo", "später", some "NORMAL", 106, 123⟩ ∧
      IsWithin { tags := ["todo", "FIXME"], caseSensitive := false } umlauts
        ⟨"FIXME", "später", some "HIGH", 111, 123⟩ := by
  obtain ⟨hboundary, hoccurrences, -, hchecked, hmarkers⟩ :=
    scanComment_within { tags := ["todo", "FIXME"], caseSensitive := false } umlauts
  have hfound : (6, " fixme später */".toList) ∈ occurrences false "todo" umlauts.text := by
    decide +kernel
  obtain ⟨hne, hmatch, -⟩ := hoccurrences "todo" (by decide) _ hfound
  obtain ⟨hstart, hstop⟩ := hboundary "todo" (by decide) hne 6 hmatch
  have hfits : umlauts.Fits := by decide +kernel
  obtain ⟨-, hwithin⟩ := hmarkers _ (hchecked.succeeds hfits)
  have hscan : scanComment { tags := ["todo", "FIXME"], caseSensitive := false } umlauts =
      [⟨"todo", "später", some "NORMAL", 106, 123⟩,
        ⟨"FIXME", "später", some "HIGH", 111, 123⟩] := by
    decide +kernel
  rw [hscan] at hwithin
  exact ⟨hstart, hstop, hwithin _ (by simp), hwithin _ (by simp)⟩

end HostBridge.Task
