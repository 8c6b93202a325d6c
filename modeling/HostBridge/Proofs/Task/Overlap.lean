import HostBridge.Proofs.Task.Turns
import HostBridge.Proofs.Task.Markers

/-!
# Markers that overlap

Each marker tells the text of the last occurrence of its chain, and ends where this one ends after
it has been cut off before the starts further on. So one would expect a marker to end before any
other one that starts further on, unless both are of one chain and tell the same text. This is true
of words that do not overlap, `apart_of_words`. With other tags there are two exceptions:

* a cut is made only where an end is *beyond* a start, though the byte at the end belongs to the
  text. A text that ends on the first byte of the next tag is not cut off, and neither is one that
  ends there because another tag was met before;
* an occurrence may start inside of a chain and not be a part of it. Then the marker goes beyond it,
  because only the last entry of the chain is cut off to an effect.

There are no other exceptions, `apart_iff`: behind the last occurrence of its chain a marker shares
one byte at most with another one, and it does exactly if the last end comes to be there. This takes
a text that ends there, or a tag that starts one byte further on, `EndsBy`.
-/

namespace HostBridge.Task

open Offset (IsChecked)
open Relation (ReflTransGen)

variable {tags : TaskTags} {c : Source.Comment} {i j k : Nat} {a b e : Entry}
  {m m' : TaskMarker}

/-! ### What is reported -/

/-- Entries are found without links, and each goes as far as the last byte of its tag at least. -/
theorem fresh_entries (he : e ∈ entries tags c) : e.next = none ∧ e.start ≤ e.stop := by
  rw [entries_eq] at he
  obtain ⟨f, hf, rfl⟩ := List.mem_map.1 he
  have hsize : f.2.tag.utf8ByteSize ≠ 0 := fun hzero =>
    (isIn_of_mem_foundIn hf).nonempty (String.utf8ByteSize_eq_zero_iff.1 hzero)
  have hlast := f.2.lastByte_taskText
  rw [Occurrence.tagStop] at hlast
  refine ⟨rfl, ?_⟩
  dsimp only [Entry.ofFound]
  omega

/-- **What is reported for an entry**: its own tag and start, and the text of the last entry of its
chain with its end, after this one has met all starts. -/
theorem eq_of_scanComment (hm : (scanComment tags c)[i]? = some m) :
    ∃ a k e, (entries tags c)[i]? = some a ∧ IsChainEnd (entries tags c) i k ∧
      (entries tags c)[k]? = some e ∧
      m = { tag := a.tag, message := e.message, priority := tags.priority? a.tagIndex,
            start := a.start
            stop := stopInTurn e.start ((entries tags c).map (·.start)) e.stop } := by
  have hfresh : ∀ e ∈ entries tags c, e.next = none := fun e he => (fresh_entries he).1
  have hturn := inTurn_settle hfresh
  rw [scanComment, List.getElem?_map, List.getElem?_zipIdx, Nat.zero_add, Option.map_map,
    Option.map_eq_some_iff] at hm
  obtain ⟨d, hd, rfl⟩ := hm
  obtain ⟨a, ha, had⟩ := hturn.exists_of hd
  obtain ⟨hend, e, he⟩ := isChainEnd_lastContinuation hfresh ha
  obtain ⟨f, hf, hef⟩ := hturn.exists he
  refine ⟨a, _, e, ha, hend, he, ?_⟩
  have hsame := had.toLinked.same
  rw [← (settle_spec hfresh he hf).2 hend.last, ← hef.toLinked.message_eq]
  dsimp only [Function.comp_apply, Entry.marker]
  rw [List.getD_eq_getElem?_getD, hf, Option.getD_some, hsame]

/-- **The end of a marker** is the one of the last entry of its chain, after this one has met all
starts. -/
theorem marker_scanComment (hm : (scanComment tags c)[i]? = some m) :
    (∃ a, (entries tags c)[i]? = some a ∧ m.start = a.start) ∧
      ∃ k e, IsChainEnd (entries tags c) i k ∧ (entries tags c)[k]? = some e ∧
        m.stop = stopInTurn e.start ((entries tags c).map (·.start)) e.stop := by
  obtain ⟨a, k, e, ha, hend, he, rfl⟩ := eq_of_scanComment hm
  exact ⟨⟨a, ha, rfl⟩, k, e, hend, he, rfl⟩

/-! ### Words -/

/-- The tag of an entry takes two bytes at least. -/
theorem start_add_two_le_tagStop (hwords : AreWords tags) (he : e ∈ entries tags c) :
    e.start + 2 ≤ e.tagStop := by
  rw [entries_eq] at he
  obtain ⟨f, hf, rfl⟩ := List.mem_map.1 he
  exact (isIn_of_mem_foundIn hf).start_add_two_le hwords

/-- Entries at different places do not overlap if the occurrences do not. -/
theorem apart_entries (hfound : NonOverlapping (foundIn tags c))
    (ha : (entries tags c)[i]? = some a) (hb : (entries tags c)[j]? = some b) :
    i = j ∨ a.tagStop ≤ b.start ∨ b.tagStop ≤ a.start := by
  rw [entries_eq, List.getElem?_map, Option.map_eq_some_iff] at ha hb
  obtain ⟨f, hf, rfl⟩ := ha
  obtain ⟨f', hf', rfl⟩ := hb
  obtain ⟨hi, rfl⟩ := List.getElem?_eq_some_iff.1 hf
  obtain ⟨hj, rfl⟩ := List.getElem?_eq_some_iff.1 hf'
  rcases Nat.lt_trichotomy i j with hlt | heq | hgt
  · exact Or.inr (List.pairwise_iff_getElem.1 hfound i j hi hj hlt)
  · exact Or.inl heq
  · exact Or.inr (List.pairwise_iff_getElem.1 hfound j i hj hi hgt).symm

/-- **A word inside of a chain is a part of it**: between two tags of a chain there is room for one
byte only. -/
theorem chain_of_between (hwords : AreWords tags) (hfound : NonOverlapping (foundIn tags c))
    (hchain : ReflTransGen (fun m n => continuation? (entries tags c) m = some n) i k)
    (ha : (entries tags c)[i]? = some a) (hb : (entries tags c)[j]? = some b)
    (he : (entries tags c)[k]? = some e) (hle : a.start ≤ b.start) (hle' : b.start ≤ e.start) :
    ReflTransGen (fun m n => continuation? (entries tags c) m = some n) j k := by
  have htwo {i : Nat} {a : Entry} (ha : (entries tags c)[i]? = some a) : a.start + 2 ≤ a.tagStop :=
    start_add_two_le_tagStop hwords (List.mem_of_getElem? ha)
  have hb' := htwo hb
  -- on the chain, from its end backwards
  induction hchain using ReflTransGen.head_induction_on generalizing a with
  | refl =>
    have := htwo he
    rcases apart_entries hfound he hb with heq | hle | hle
    · exact heq ▸ .refl
    · omega
    · obtain rfl := Option.some.inj (ha.symm.trans he)
      omega
  | head hnext hrest ih =>
    obtain ⟨d, hd, hstart⟩ := continuation?_eq_some ha hnext
    have hd' := htwo hd
    by_cases hgo : d.start ≤ b.start
    · exact ih hd hgo
    · -- the word starts before the next tag, so it is the tag before
      rcases apart_entries hfound ha hb with heq | hab | hba
      · exact heq ▸ .head hnext hrest
      · rcases apart_entries hfound hb hd with heq | hbd | hdb
        · obtain rfl := Option.some.inj (hb.symm.trans (heq ▸ hd))
          omega
        · omega
        · omega
      · omega

/-- **Markers of words do not overlap**, unless they are of one chain. -/
theorem apart_of_words (hwords : AreWords tags) (hfound : NonOverlapping (foundIn tags c))
    (hm : (scanComment tags c)[i]? = some m) (hm' : (scanComment tags c)[j]? = some m')
    (hlt : m.start < m'.start) :
    (∃ l, IsChainEnd (entries tags c) i l ∧ IsChainEnd (entries tags c) j l) ∨
      m.stop < m'.start := by
  have hspaced := spaced_entries hwords hfound
  obtain ⟨⟨a, ha, hstart⟩, k, e, hk, he, hstop⟩ := marker_scanComment hm
  obtain ⟨⟨b, hb, hstart'⟩, -⟩ := marker_scanComment hm'
  have hends := endsBy_stopInTurn e.start ((entries tags c).map (·.start)) e.stop
  rw [← hstop] at hends
  rw [hstart, hstart'] at hlt
  rw [hstart']
  by_cases hbehind : e.start < b.start
  · right
    have hemem := List.mem_of_getElem? he
    have hbmem := List.mem_of_getElem? hb
    have hle := hends.meets b.start (List.mem_map_of_mem hbmem) hbehind
    -- the end is not on the start, for neither a text nor a cut ends there
    rcases hends.eq with heq | ⟨s, hs, -, heq⟩
    · have := hspaced.stops e hemem b hbmem
      omega
    · obtain ⟨d, hd, rfl⟩ := List.mem_map.1 hs
      have := hspaced.starts b hbmem d hd
      omega
  · left
    exact ⟨k, hk, chain_of_between hwords hfound hk.chain ha hb he (by omega) (by omega), hk.last⟩

/-! ### All tags -/

/-- **When markers do not overlap.** Be the tags as they may, a marker ends by the starts behind the
last entry of its chain: it shares one byte at most with a marker that starts there. The two markers
are of one chain or do not overlap at all, except if they do share this byte, or if the other one
starts inside of the chain. The markers are those of a scan with the sums of its offsets checked. -/
theorem apart_iff (tags : TaskTags) (c : Source.Comment) :
    IsChecked c.Fits (scanComment? tags c) (scanComment tags c) ∧
    ∀ ms, scanComment? tags c = some ms → ∀ i j m m', ms[i]? = some m → ms[j]? = some m' →
      ∃ k l e, IsChainEnd (entries tags c) i k ∧ IsChainEnd (entries tags c) j l ∧
        (entries tags c)[k]? = some e ∧
        EndsBy ((entries tags c).map (·.start)) e.start e.stop m.stop ∧
        m.stop = stopInTurn e.start ((entries tags c).map (·.start)) e.stop ∧
        ((k = l ∨ m.stop < m'.start) ↔ k = l ∨ e.start < m'.start ∧ m.stop ≠ m'.start) := by
  refine ⟨isChecked_scanComment tags c, fun ms hms i j m m' hm hm' => ?_⟩
  obtain rfl := (isChecked_scanComment tags c).exact ms hms
  obtain ⟨-, k, e, hk, he, hstop⟩ := marker_scanComment hm
  obtain ⟨⟨b, hb, hstart'⟩, l, -, hl, -⟩ := marker_scanComment hm'
  have hends := endsBy_stopInTurn e.start ((entries tags c).map (·.start)) e.stop
  rw [← hstop] at hends
  have hgoes : e.start ≤ m.stop := by
    rw [hstop]
    exact start_le_stopInTurn (fresh_entries (List.mem_of_getElem? he)).2
  refine ⟨k, l, e, hk, hl, he, hends, hstop, or_congr_right ⟨fun h => ?_, fun h => ?_⟩⟩
  · omega
  · have := hends.meets b.start (List.mem_map_of_mem (List.mem_of_getElem? hb)) (hstart' ▸ h.1)
    omega

/-- In `neighbours` the first tag goes on to the second one, and this one ends before the third. -/
theorem apart_iff_neighbours :
    ∃ ms m m', scanComment? {} neighbours = some ms ∧ ms[0]? = some m ∧ ms[2]? = some m' ∧
      ∃ k l e, IsChainEnd (entries {} neighbours) 0 k ∧ IsChainEnd (entries {} neighbours) 2 l ∧
        (entries {} neighbours)[k]? = some e ∧
        EndsBy ((entries {} neighbours).map (·.start)) e.start e.stop m.stop ∧
        m.stop = stopInTurn e.start ((entries {} neighbours).map (·.start)) e.stop ∧
        ((k = l ∨ m.stop < m'.start) ↔ k = l ∨ e.start < m'.start ∧ m.stop ≠ m'.start) := by
  have hms : scanComment? {} neighbours = some
      [⟨"TODO", "later XXX never", some "NORMAL", 103, 119⟩,
        ⟨"FIXME", "later XXX never", some "HIGH", 108, 119⟩,
        ⟨"XXX", "never", some "NORMAL", 120, 128⟩] := by decide +kernel
  obtain ⟨-, hapart⟩ := apart_iff {} neighbours
  exact ⟨_, _, _, hms, rfl, rfl, hapart _ hms 0 2 _ _ rfl rfl⟩

/-- A comment of which the last byte can be read as a tag. -/
def exclamation : Source.Comment where
  kind := .line
  text := "// TODO fix!"
  start := 0
  stop := 11
  firstLine := 1
  lastLine := 1

/-- **Markers that share a byte.** Neither of the two tags goes on to another one, and the text of
the first ends on the byte where the second one starts. -/
theorem shared_byte :
    ∃ m m', (scanComment { tags := ["TODO", "!"] } exclamation)[0]? = some m ∧
      (scanComment { tags := ["TODO", "!"] } exclamation)[1]? = some m' ∧ m.start < m'.start ∧
      ¬ ((∃ l, IsChainEnd (entries { tags := ["TODO", "!"] } exclamation) 0 l ∧
        IsChainEnd (entries { tags := ["TODO", "!"] } exclamation) 1 l) ∨ m.stop < m'.start) := by
  have hfirst : IsChainEnd (entries { tags := ["TODO", "!"] } exclamation) 0 0 :=
    ⟨.refl, by decide +kernel⟩
  have hsecond : IsChainEnd (entries { tags := ["TODO", "!"] } exclamation) 1 1 :=
    ⟨.refl, by decide +kernel⟩
  refine ⟨⟨"TODO", "fix!", some "NORMAL", 3, 11⟩, ⟨"!", "", some "HIGH", 11, 11⟩,
    by decide +kernel, by decide +kernel, by decide, ?_⟩
  rintro (⟨l, h, h'⟩ | hlt)
  · have := (hfirst.unique h).trans (hsecond.unique h').symm
    cases this
  · exact absurd hlt (by decide)

/-- The other exception: the second tag starts inside of the first one, and this one goes on to the
third. -/
example :
    (scanComment { tags := ["TODO", "OD", "FIXME"] }
      { exclamation with text := "// TODO FIXME later" }).map (fun m => (m.start, m.stop)) =
      [(3, 18), (4, 7), (8, 18)] := by
  decide +kernel

end HostBridge.Task
