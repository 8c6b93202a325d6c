import HostBridge.Proofs.Offset
import HostBridge.Proofs.Task.Words

/-!
# The offsets of a scan

The scan of a comment adds up offsets and compares what comes out: the start of a tag, the last byte
of a task, the byte behind the tag where a neighbour would start, the byte in front of another tag.
`scanComment?` is the scan with each of these sums checked, in the order in which it computes them.
It gives nothing but what the scan gives, and it does not give up on a comment that leaves room for
the second byte behind it, `Source.Comment.Fits`: there a neighbour of a tag at the end of the
comment would start.

* `isChecked_entries` — the entries of a comment;
* `isChecked_relate`, `isChecked_foldl_relate` — settling one pair and any number of them;
* `isChecked_scanComment` — the markers.
-/

namespace HostBridge

open Offset (fit IsChecked)

/-- **A comment that leaves room** for the offsets that its scan computes. -/
structure Source.Comment.Fits (c : Source.Comment) : Prop where
  start : -0x80000000 ≤ c.start
  size : c.text.utf8ByteSize < 0x80000000
  stop : c.start + c.text.utf8ByteSize + 1 < 0x80000000

instance (c : Source.Comment) : Decidable c.Fits :=
  decidable_of_iff (-0x80000000 ≤ c.start ∧ c.text.utf8ByteSize < 0x80000000 ∧
      c.start + c.text.utf8ByteSize + 1 < 0x80000000)
    ⟨fun ⟨hstart, hsize, hstop⟩ => ⟨hstart, hsize, hstop⟩, fun h => ⟨h.start, h.size, h.stop⟩⟩

namespace Source.Comment.Fits

variable {c : Source.Comment}

/-- There is room for the offsets in the comment and for the two behind it. -/
theorem offset (h : c.Fits) {n : Int} (hstart : c.start ≤ n)
    (hstop : n ≤ c.start + c.text.utf8ByteSize + 1) : Offset.Fits n := by
  have := h.start
  have := h.stop
  exact ⟨by omega, by omega⟩

/-- There is room for the sizes of the parts of the comment. -/
theorem part (h : c.Fits) {n : Nat} (hle : n ≤ c.text.utf8ByteSize) : Offset.Fits n := by
  have := h.size
  exact ⟨by omega, by omega⟩

end Source.Comment.Fits

namespace Task

variable {tags : TaskTags} {c : Source.Comment} {es : List Entry} {e : Entry}

/-! ### The entries of a comment -/

/-- The offset just past a task: past its tag if it has no text. -/
def taskStop? (commentStart start : Int) (tag : String) (o : Nat × List Char) : Option Int :=
  if (taskText o.2).isEmpty then do
    let size ← fit tag.utf8ByteSize
    fit (start + size)
  else do
    -- the blanks in front of the text are counted, and with them it is the body
    let size ← fit (o.1 + tag.utf8ByteSize + Text.byteLength (taskBody o.2))
    fit (commentStart + size)

/-- `Entry.ofOccurrence` with its sums checked. -/
def Entry.ofOccurrence? (commentStart : Int) (tag : String) (tagIndex : Nat)
    (o : Nat × List Char) : Option Entry := do
  let offset ← fit o.1
  let start ← fit (commentStart + offset)
  let past ← taskStop? commentStart start tag o
  let stop ← fit (past - 1)
  return { tag, tagIndex, start, stop, message := String.ofList (taskText o.2) }

/-- `entries` with all sums checked. -/
def entries? (tags : TaskTags) (c : Source.Comment) : Option (List Entry) := do
  let found ← tags.tags.zipIdx.mapM fun (tag, tagIndex) =>
    (occurrences tags.caseSensitive tag c.text).mapM (Entry.ofOccurrence? c.start tag tagIndex)
  return found.flatten

/-- An occurrence and its task are within the text. -/
theorem byteLength_le_of_mem_occurrences {caseSensitive : Bool} {tag text : String}
    {o : Nat × List Char} (h : o ∈ occurrences caseSensitive tag text) :
    o.1 + tag.utf8ByteSize + Text.byteLength (taskBody o.2) ≤ text.utf8ByteSize := by
  obtain ⟨before, found, htext, hoffset, hfound⟩ := split_of_mem_occurrences h
  obtain ⟨closing, after, hrest, -⟩ := taskBody_split o.2
  have hbytes := byteLength_eq_of_map_foldCase hfound
  have hall := congrArg Text.byteLength htext
  have hline := congrArg Text.byteLength hrest
  simp only [Text.byteLength_append, Text.byteLength_toList] at hbytes hall hline
  omega

/-- A tag that occurs takes a byte at least. -/
theorem utf8ByteSize_pos_of_mem_occurrences {caseSensitive : Bool} {tag text : String}
    {o : Nat × List Char} (h : o ∈ occurrences caseSensitive tag text) :
    0 < tag.utf8ByteSize := by
  refine Nat.pos_of_ne_zero fun hzero => ?_
  rw [String.utf8ByteSize_eq_zero_iff.1 hzero] at h
  exact absurd h List.not_mem_nil

theorem isChecked_taskStop {tag : String} {o : Nat × List Char}
    (ho : o ∈ occurrences tags.caseSensitive tag c.text) :
    IsChecked c.Fits (taskStop? c.start (c.start + o.1) tag o)
      (c.start + o.1 + tag.utf8ByteSize + Text.byteLength (taskBody o.2)) := by
  have hwithin := byteLength_le_of_mem_occurrences ho
  rw [taskStop?]
  split
  · next hempty =>
    -- nothing is behind the tag, not even blanks
    have hbody : taskBody o.2 = [] := taskBody_of_taskText_eq_nil (List.isEmpty_iff.1 hempty)
    rw [hbody, Text.byteLength_nil] at hwithin ⊢
    rw [Int.natCast_zero, Int.add_zero]
    exact .bind (.fit _ fun h => h.part (by omega))
      (.fit _ fun h => h.offset (by omega) (by omega))
  · -- the bytes are counted from the start of the comment and not from the tag
    have hsum : c.start + o.1 + tag.utf8ByteSize + Text.byteLength (taskBody o.2) =
        c.start + (o.1 + tag.utf8ByteSize + Text.byteLength (taskBody o.2) : Nat) := by
      omega
    rw [hsum]
    exact .bind (.fit _ fun h => h.part (by omega))
      (.fit _ fun h => h.offset (by omega) (by omega))

theorem isChecked_ofOccurrence {tag : String} (tagIndex : Nat) {o : Nat × List Char}
    (ho : o ∈ occurrences tags.caseSensitive tag c.text) :
    IsChecked c.Fits (Entry.ofOccurrence? c.start tag tagIndex o)
      (Entry.ofOccurrence c.start tag tagIndex o) := by
  have hwithin := byteLength_le_of_mem_occurrences ho
  have hpos := utf8ByteSize_pos_of_mem_occurrences ho
  rw [Entry.ofOccurrence_eq, Entry.ofFound, Occurrence.lastByte_taskText]
  exact .bind (.fit _ fun h => h.part (by omega)) <|
    .bind (.fit _ fun h => h.offset (by omega) (by omega)) <|
    .bind (isChecked_taskStop ho) <|
    .bind (.fit _ fun h => h.offset (by omega) (by omega)) <|
    .pure _ _

/-- **The entries of a comment need no more than 32 bits** if the comment leaves room. -/
theorem isChecked_entries (tags : TaskTags) (c : Source.Comment) :
    IsChecked c.Fits (entries? tags c) (entries tags c) := by
  rw [entries, List.flatMap_def]
  exact .bind (.mapM fun p _ => .mapM fun o ho => isChecked_ofOccurrence p.2 ho) (.pure _ _)

/-! ### Settling -/

/-- `relate` with its sums checked. -/
def relate? (es : List Entry) (i j : Nat) : Option (List Entry) :=
  match es[i]?, es[j]? with
  | some a, some b => do
    let size ← fit a.tag.utf8ByteSize
    let tagStop ← fit (a.start + size)
    let neighbour ← fit (tagStop + 1)
    if neighbour = b.start then return es.set i { a with next := some j }
    else if b.start < reportedStop es i ∧ a.start < b.start then
      return es.set i { a with stop := ← fit (b.start - 1) }
    else if a.start < reportedStop es j ∧ b.start < a.start then
      return es.set j { b with stop := ← fit (a.start - 1) }
    else return es
  | _, _ => some es

/-- **An entry that leaves room** for what settling computes of it. -/
structure Entry.Fits (e : Entry) : Prop where
  start : Offset.Fits e.start
  tag : Offset.Fits e.tag.utf8ByteSize
  neighbour : Offset.Fits (e.tagStop + 1)

namespace Entry.Fits

variable {a b : Entry}

theorem tagStop (h : a.Fits) : Offset.Fits a.tagStop := by
  have := h.start
  have := h.neighbour
  have := start_le_tagStop a
  rw [Offset.Fits] at *
  omega

/-- In front of an entry there is room, unless no entry starts before it. -/
theorem before (h : b.Fits) (ha : a.Fits) (hlt : a.start < b.start) :
    Offset.Fits (b.start - 1) := by
  have := h.start
  have := ha.start
  rw [Offset.Fits] at *
  omega

/-- Only the start and the tag of an entry count. -/
theorem congr (h : a.Fits) (hstart : b.start = a.start) (htag : b.tag = a.tag) : b.Fits := by
  have htagStop : b.tagStop = a.tagStop := by rw [Entry.tagStop, Entry.tagStop, hstart, htag]
  exact ⟨hstart ▸ h.start, htag ▸ h.tag, htagStop ▸ h.neighbour⟩

end Entry.Fits

/-- **Settling a pair** needs no more than 32 bits if the entries leave room. -/
theorem isChecked_relate (es : List Entry) (i j : Nat) :
    IsChecked (∀ e ∈ es, e.Fits) (relate? es i j) (relate es i j) := by
  rw [relate?, relate]
  cases ha : es[i]? with
  | none => exact .pure _ _
  | some a =>
    cases hb : es[j]? with
    | none => exact .pure _ _
    | some b =>
      have hfits (h : ∀ e ∈ es, e.Fits) : a.Fits ∧ b.Fits :=
        ⟨h a (List.mem_of_getElem? ha), h b (List.mem_of_getElem? hb)⟩
      refine .bind (.fit _ fun h => (hfits h).1.tag) <|
        .bind (.fit a.tagStop fun h => (hfits h).1.tagStop) <|
        .bind (.fit _ fun h => (hfits h).1.neighbour) ?_
      -- no further sum is needed for a link, and one for a cut
      dsimp only
      split
      · exact .pure _ _
      · split
        · next hcut =>
          exact .bind (.fit _ fun h => (hfits h).2.before (hfits h).1 hcut.2) (.pure _ _)
        · split
          · next hcut =>
            exact .bind (.fit _ fun h => (hfits h).1.before (hfits h).2 hcut.2) (.pure _ _)
          · exact .pure _ _

/-- Settling a pair changes neither the start nor the tag of an entry, so the room is kept. -/
theorem fits_relate {i j : Nat} (h : ∀ e ∈ es, e.Fits) : ∀ e ∈ relate es i j, e.Fits := by
  have hset {k : Nat} {a d : Entry} (ha : es[k]? = some a) (hstart : d.start = a.start)
      (htag : d.tag = a.tag) : ∀ e ∈ es.set k d, e.Fits := by
    intro e he
    rcases List.mem_or_eq_of_mem_set he with he | rfl
    · exact h e he
    · exact (h a (List.mem_of_getElem? ha)).congr hstart htag
  rw [relate]
  split
  · next a b ha hb =>
    split
    · exact hset ha rfl rfl
    · split
      · exact hset ha rfl rfl
      · split
        · exact hset hb rfl rfl
        · exact h
  · exact h

theorem isChecked_foldl_relate (pairs : List (Nat × Nat)) (es : List Entry) :
    IsChecked (∀ e ∈ es, e.Fits) (pairs.foldlM (fun es (i, j) => relate? es i j) es)
      (pairs.foldl (fun es (i, j) => relate es i j) es) :=
  .foldlM (fun es p => isChecked_relate es p.1 p.2) (fun _ _ h => fits_relate h) pairs es

/-- A comment with room leaves room for its entries. -/
theorem fits_entries (h : c.Fits) : ∀ e ∈ entries tags c, e.Fits := by
  intro e he
  rw [entries_eq] at he
  obtain ⟨f, hf, rfl⟩ := List.mem_map.1 he
  obtain ⟨-, o, ho, hstart, -⟩ := mem_occurrencesOf.1 (mem_foundIn.1 hf).2
  have hwithin := byteLength_le_of_mem_occurrences ho
  dsimp only [Entry.ofFound]
  refine ⟨h.offset ?_ ?_, h.part ?_, h.offset ?_ ?_⟩
  all_goals
    dsimp only [Entry.tagStop]
    omega

/-! ### The scan -/

/-- `scanComment` with all sums checked. -/
def scanComment? (tags : TaskTags) (c : Source.Comment) : Option (List TaskMarker) := do
  let found ← entries? tags c
  let es ← (indexPairs found.length).foldlM (fun es (i, j) => relate? es i j) found
  return es.zipIdx.map fun (e, index) => e.marker tags es index

/-- **The scan of a comment needs no more than 32 bits** if the comment leaves room. -/
theorem isChecked_scanComment (tags : TaskTags) (c : Source.Comment) :
    IsChecked c.Fits (scanComment? tags c) (scanComment tags c) :=
  .bind (isChecked_entries tags c) <|
    .bind ((isChecked_foldl_relate _ _).mono fits_entries) (.pure _ _)

/-- A task that ends behind the last offset of 32 bits is given up. -/
example : scanComment? {} (.ofText .line "// TODO x" 0x7FFFFFF8 1) = none := by decide +kernel

end Task

end HostBridge
