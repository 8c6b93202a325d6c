import HostBridge.Proofs.Task.Settling
import Mathlib.Data.List.Basic
import Mathlib.Data.List.Induction

/-!
# Settling in turn

Nothing is known about the tags here: they may be of one byte, repeated, and their occurrences may
overlap. Then the order in which pairs are settled shows in the result. Yet the result can be told
from the entries as they are found:

* an entry is linked to the last of those listed that start one byte behind its tag,
  `continuation?`;
* an entry without such a continuation is cut off before each start that it goes beyond by the time
  it meets it, and it meets the starts in the order in which the entries are listed, `stopInTurn`.

While pairs are settled this is true of the pairs that have been settled, `InTurn`. An entry meets
each other one twice, once in either place of a pair, but the second meeting comes to nothing: an
end that has met a start is not beyond it any more, `stopInTurn_append_of_subset`.

* `endsBy_stopInTurn` — what is known about an end that has met starts in whichever order;
* `settle_spec` — the link and the end of an entry after all pairs;
* `isChainEnd_lastContinuation` — the entry whose text and end are reported.
-/

namespace HostBridge.Task

open Relation (ReflTransGen)

variable {es es' : List Entry} {i j k l : Nat} {a b e : Entry} {done : List (Nat × Nat)}

/-! ### An end that meets starts -/

/-- The end of what goes from `start` to `stop` after it has met some starts, one after the other. A
start further on that is before the end by then cuts it off. -/
def stopInTurn (start : Int) (starts : List Int) (stop : Int) : Int :=
  starts.foldl (fun stop next => if start < next ∧ next < stop then next - 1 else stop) stop

section

variable {start stop : Int} {starts later : List Int}

theorem stopInTurn_append :
    stopInTurn start (starts ++ later) stop =
      stopInTurn start later (stopInTurn start starts stop) :=
  List.foldl_append

theorem stopInTurn_cons (next : Int) : stopInTurn start (next :: starts) stop =
    stopInTurn start starts (if start < next ∧ next < stop then next - 1 else stop) :=
  List.foldl_cons ..

theorem stopInTurn_le (start : Int) (starts : List Int) (stop : Int) :
    stopInTurn start starts stop ≤ stop := by
  induction starts generalizing stop with
  | nil => exact Int.le_refl stop
  | cons next starts ih =>
    rw [stopInTurn_cons]
    refine Int.le_trans (ih _) ?_
    split <;> omega

/-- An end is not beyond a start that it has met. -/
theorem stopInTurn_le_of_mem {next : Int} (hnext : next ∈ starts) (hafter : start < next) :
    stopInTurn start starts stop ≤ next := by
  induction starts generalizing stop with
  | nil => exact absurd hnext List.not_mem_nil
  | cons first starts ih =>
    rw [stopInTurn_cons]
    rcases List.mem_cons.1 hnext with rfl | hnext
    · refine Int.le_trans (stopInTurn_le _ _ _) ?_
      split <;> omega
    · exact ih hnext

/-- Nothing is cut off that is not beyond the start. -/
theorem stopInTurn_eq_self (h : ∀ next ∈ starts, start < next → stop ≤ next) :
    stopInTurn start starts stop = stop := by
  induction starts with
  | nil => rfl
  | cons next starts ih =>
    have hnext := h next List.mem_cons_self
    rw [stopInTurn_cons, if_neg (by omega)]
    exact ih fun s hs => h s (List.mem_cons_of_mem next hs)

/-- **Meeting starts once more** comes to nothing. -/
theorem stopInTurn_append_of_subset (h : ∀ next ∈ later, next ∈ starts) :
    stopInTurn start (starts ++ later) stop = stopInTurn start starts stop := by
  rw [stopInTurn_append]
  exact stopInTurn_eq_self fun next hnext hafter => stopInTurn_le_of_mem (h next hnext) hafter

/-- **What an end is after it has met starts**: not behind the given end, not beyond any start
further on, and the given end or just before a start. Other than with `EndsBefore` it may be on a
start. -/
structure EndsBy (starts : List Int) (start stop stop' : Int) : Prop where
  le : stop' ≤ stop
  meets : ∀ next ∈ starts, start < next → stop' ≤ next
  eq : stop' = stop ∨ ∃ next ∈ starts, start < next ∧ stop' = next - 1

theorem endsBy_stopInTurn (start : Int) (starts : List Int) (stop : Int) :
    EndsBy starts start stop (stopInTurn start starts stop) where
  le := stopInTurn_le start starts stop
  meets _ := stopInTurn_le_of_mem
  eq := by
    induction starts generalizing stop with
    | nil => exact Or.inl rfl
    | cons next starts ih =>
      rw [stopInTurn_cons]
      rcases ih (if start < next ∧ next < stop then next - 1 else stop) with heq | ⟨s, hs, heq⟩
      · rw [heq]
        split
        · next hcut => exact Or.inr ⟨next, List.mem_cons_self, hcut.1, rfl⟩
        · exact Or.inl rfl
      · exact Or.inr ⟨s, List.mem_cons_of_mem next hs, heq⟩

theorem start_le_stopInTurn (h : start ≤ stop) : start ≤ stopInTurn start starts stop := by
  induction starts generalizing stop with
  | nil => exact h
  | cons next starts ih =>
    rw [stopInTurn_cons]
    refine ih ?_
    split <;> omega

end

/-! ### What an entry meets -/

/-- Where the entry at a place starts, if there is one. -/
def startAt? (es : List Entry) (j : Nat) : Option Int := es[j]?.map (·.start)

theorem startAt?_eq (hb : es[j]? = some b) : startAt? es j = some b.start := by
  rw [startAt?, hb, Option.map_some]

/-- The place of the other one in a pair that the entry at `k` is in. -/
def partner? (k : Nat) (p : Nat × Nat) : Option Nat :=
  if p.1 = k then some p.2 else if p.2 = k then some p.1 else none

/-- The starts that the entry at `k` has met in some pairs. -/
def startsMet (es : List Entry) (k : Nat) (done : List (Nat × Nat)) : List Int :=
  (done.filterMap (partner? k)).filterMap (startAt? es)

/-- The places of the entries in some pairs that continue the entry `a`, which comes first at
`k`. -/
def linksMet (es : List Entry) (a : Entry) (k : Nat) (done : List (Nat × Nat)) : List Nat :=
  (done.filter fun p => p.1 = k ∧ startAt? es p.2 = some (a.tagStop + 1)).map (·.2)

theorem startsMet_concat (p : Nat × Nat) : startsMet es k (done ++ [p]) =
    startsMet es k done ++ ((partner? k p).bind (startAt? es)).toList := by
  rw [startsMet, List.filterMap_append, List.filterMap_append, startsMet]
  congr 1
  cases hp : partner? k p with
  | none => simp [hp]
  | some m =>
    cases hm : startAt? es m <;> simp [hp, hm]

/-- **What becomes of the entry `a`** at the place `k` as soon as some pairs have been settled. -/
structure InTurn (es : List Entry) (done : List (Nat × Nat)) (k : Nat) (a e : Entry) : Prop
    extends Linked es a e where
  next_eq : e.next = (linksMet es a k done).getLast?
  stop_eq : IsLast es a → e.stop = stopInTurn a.start (startsMet es k done) a.stop

/-- The end of an entry that has met one more. -/
theorem InTurn.stop_cutBefore (h : InTurn es done k a e) (he : es'[k]? = some e)
    (hlast : IsLast es a) (next : Int) :
    (e.cutBefore (reportedStop es' k) next).stop =
      stopInTurn a.start (startsMet es k done ++ [next]) a.stop := by
  have hreported := reportedStop_of_next_eq_none he (h.toLinked.next_eq_none hlast)
  rw [stopInTurn_append, ← h.stop_eq hlast, stopInTurn_cons, Entry.cutBefore, hreported,
    h.toLinked.start_eq]
  split <;> rfl

/-- The first entry of a pair is linked to the second one, or cut before it. -/
theorem InTurn.first (h : InTurn es done i a e) (he : es'[i]? = some e) (hb : es[j]? = some b) :
    InTurn es (done ++ [(i, j)]) i a (if a.tagStop + 1 = b.start then { e with next := some j }
      else e.cutBefore (reportedStop es' i) b.start) := by
  have hstart := startAt?_eq hb
  have hmet : startsMet es i (done ++ [(i, j)]) = startsMet es i done ++ [b.start] := by
    rw [startsMet_concat, partner?, if_pos rfl, Option.bind_some, hstart, Option.toList_some]
  have hlinks : linksMet es a i (done ++ [(i, j)]) =
      linksMet es a i done ++ if a.tagStop + 1 = b.start then [j] else [] := by
    rw [linksMet, List.filter_append, List.map_append, linksMet]
    congr 1
    split
    · next hadjacent => simp [hstart, hadjacent]
    · next hapart => simp [hstart, Ne.symm hapart]
  split
  · next hadjacent =>
    refine ⟨h.toLinked.link hb hadjacent, ?_, fun hlast => ?_⟩
    · rw [hlinks, if_pos hadjacent, List.getLast?_concat]
    · exact absurd hadjacent (hlast b (List.mem_of_getElem? hb))
  · next hapart =>
    refine ⟨h.toLinked.cutBefore _ _, ?_, fun hlast => ?_⟩
    · rw [hlinks, if_neg hapart, List.append_nil, Entry.next_cutBefore, h.next_eq]
    · rw [hmet, h.stop_cutBefore he hlast]

/-- The links of an entry are those of the pairs that it comes first in. -/
theorem linksMet_other (hk : k ≠ i) :
    linksMet es a k (done ++ [(i, j)]) = linksMet es a k done := by
  rw [linksMet, List.filter_append, List.map_append, linksMet]
  simp [hk.symm]

/-- The second entry of a pair may be cut before the first one. -/
theorem InTurn.second (h : InTurn es done j b e) (he : es'[j]? = some e) (ha : es[i]? = some a)
    (hij : i ≠ j) :
    InTurn es (done ++ [(i, j)]) j b (e.cutBefore (reportedStop es' j) a.start) := by
  have hmet : startsMet es j (done ++ [(i, j)]) = startsMet es j done ++ [a.start] := by
    rw [startsMet_concat, partner?, if_neg hij, if_pos rfl, Option.bind_some, startAt?_eq ha,
      Option.toList_some]
  refine ⟨h.toLinked.cutBefore _ _, ?_, fun hlast => ?_⟩
  · rw [Entry.next_cutBefore, linksMet_other hij.symm, h.next_eq]
  · rw [hmet, h.stop_cutBefore he hlast]

/-- An entry does not meet anything in a pair that it is not in. -/
theorem InTurn.other (h : InTurn es done k a e) (hi : k ≠ i) (hj : k ≠ j) :
    InTurn es (done ++ [(i, j)]) k a e := by
  refine ⟨h.toLinked, ?_, fun hlast => ?_⟩
  · rw [linksMet_other hi, h.next_eq]
  · rw [startsMet_concat, partner?, if_neg hi.symm, if_neg hj.symm, Option.bind_none,
      Option.toList_none, List.append_nil, h.stop_eq hlast]

/-- **A pair keeps the invariant**, and it has been settled then. -/
theorem inTurn_relate (h : Became (InTurn es done) es es') (hi : i < es.length)
    (hj : j < es.length) (hij : i ≠ j) :
    Became (InTurn es (done ++ [(i, j)])) es (relate es' i j) := by
  refine h.relate hij hi hj (fun a b a' b' _ hb ha' hPa hPb => ?_)
    (fun a b a' b' ha _ hb' hPa hPb => ?_) fun k a e hki hkj hP => hP.other hki hkj
  · rw [hPa.toLinked.tagStop_eq, hPb.toLinked.start_eq]
    exact hPa.first ha' hb
  · rw [hPa.toLinked.start_eq]
    exact hPb.second hb' ha hij

theorem inTurn_settle (hfresh : ∀ e ∈ es, e.next = none) :
    Became (InTurn es (indexPairs es.length)) es (settle es) := by
  have hstart : Became (InTurn es []) es es := .refl fun k a ha => by
    have hnext := hfresh a (List.mem_of_getElem? ha)
    refine ⟨⟨rfl, fun j hj => ?_⟩, hnext, fun _ => rfl⟩
    rw [hnext] at hj
    cases hj
  exact Became.foldl_relate (fun _ _ _ _ hi hj hij h => inTurn_relate h hi hj hij) _ []
    (fun _ hp => hp) hstart

/-! ### What an entry has met in the end -/

/-- **The place of the entry that continues** the one at a place: of those that start one byte
behind its tag the one that is listed last. -/
def continuation? (es : List Entry) (i : Nat) : Option Nat :=
  es[i]?.bind fun a =>
    ((List.range es.length).filter fun j => startAt? es j = some (a.tagStop + 1)).getLast?

section

variable {n : Nat} {front back : List Nat}

/-- An index among all those before it and all those behind it. -/
theorem exists_range_eq (hk : k < n) :
    ∃ front back, List.range n = front ++ k :: back ∧ k ∉ front ∧ k ∉ back := by
  obtain ⟨front, back, hrange⟩ := List.append_of_mem (List.mem_range.2 hk)
  have hnodup : (front ++ k :: back).Nodup := hrange ▸ List.nodup_range
  rw [List.nodup_append] at hnodup
  exact ⟨front, back, hrange, fun hmem => hnodup.2.2 k hmem k List.mem_cons_self rfl,
    (List.nodup_cons.1 hnodup.2.1).1⟩

/-- The pairs that `i` comes first in. -/
def pairsOf (n i : Nat) : List (Nat × Nat) := ((List.range n).filter (· ≠ i)).map fun j => (i, j)

/-- What comes of all pairs is what comes of those of `k`, among what comes of the others. -/
theorem flatMap_range_eq {α : Type} {F G : Nat → List α}
    (hrange : List.range n = front ++ k :: back) (hfront : k ∉ front) (hback : k ∉ back)
    (h : ∀ i, i ≠ k → F i = G i) :
    (List.range n).flatMap F = front.flatMap G ++ (F k ++ back.flatMap G) := by
  have hothers (l : List Nat) (hl : k ∉ l) : l.flatMap F = l.flatMap G :=
    List.flatMap_congr fun i hi => h i fun heq => hl (heq ▸ hi)
  rw [hrange, List.flatMap_append, List.flatMap_cons, hothers front hfront, hothers back hback]

theorem filterMap_partner?_own (hrange : List.range n = front ++ k :: back) (hfront : k ∉ front)
    (hback : k ∉ back) : (pairsOf n k).filterMap (partner? k) = front ++ back := by
  have hpartner : (partner? k ∘ fun j => (k, j)) = some := funext fun j => if_pos rfl
  have hkeep (l : List Nat) (hl : k ∉ l) : l.filter (· ≠ k) = l :=
    List.filter_eq_self.2 fun j hj => decide_eq_true fun heq => hl (heq ▸ hj)
  rw [pairsOf, List.filterMap_map, hpartner, List.filterMap_some, hrange, List.filter_append,
    List.filter_cons_of_neg (by simp), hkeep front hfront, hkeep back hback]

theorem filterMap_partner?_other (hrange : List.range n = front ++ k :: back) (hfront : k ∉ front)
    (hback : k ∉ back) (hi : i ≠ k) : (pairsOf n i).filterMap (partner? k) = [i] := by
  have hnone (l : List Nat) (hl : k ∉ l) :
      ((l.filter (· ≠ i)).map fun j => (i, j)).filterMap (partner? k) = [] := by
    rw [List.filterMap_map, List.filterMap_eq_nil_iff]
    intro j hj
    have hjk : j ≠ k := fun heq => hl (heq ▸ (List.mem_filter.1 hj).1)
    rw [Function.comp_apply, partner?, if_neg hi, if_neg hjk]
  have hpartner : partner? k (i, k) = some i := by rw [partner?, if_neg hi, if_pos rfl]
  rw [pairsOf, hrange, List.filter_append, List.map_append, List.filterMap_append,
    hnone front hfront, List.filter_cons_of_pos (by simpa using hi.symm), List.map_cons,
    List.filterMap_cons_some hpartner, hnone back hback, List.nil_append]

/-- Each other index is a partner twice. In the pairs of `k` itself it comes behind those of the
indices before `k`, and ahead of those of the indices behind. -/
theorem filterMap_partner?_indexPairs (hrange : List.range n = front ++ k :: back)
    (hfront : k ∉ front) (hback : k ∉ back) :
    (indexPairs n).filterMap (partner? k) = front ++ (front ++ back ++ back) := by
  have hpairs : (indexPairs n).filterMap (partner? k) =
      (List.range n).flatMap fun i => (pairsOf n i).filterMap (partner? k) :=
    List.filterMap_flatMap
  rw [hpairs, flatMap_range_eq hrange hfront hback
    fun i hi => filterMap_partner?_other hrange hfront hback hi, List.flatMap_singleton',
    List.flatMap_singleton', filterMap_partner?_own hrange hfront hback]

end

theorem filterMap_startAt?_range (es : List Entry) :
    (List.range es.length).filterMap (startAt? es) = es.map (·.start) := by
  induction es using List.reverseRecOn with
  | nil => rfl
  | append_singleton es e ih =>
    have hbefore : ∀ j ∈ List.range es.length, startAt? (es ++ [e]) j = startAt? es j := by
      intro j hj
      rw [startAt?, List.getElem?_append_left (List.mem_range.1 hj), startAt?]
    have hlast : startAt? (es ++ [e]) es.length = some e.start :=
      startAt?_eq List.getElem?_concat_length
    rw [List.length_append, List.length_singleton, List.range_succ, List.filterMap_append,
      List.filterMap_congr hbefore, ih, List.filterMap_cons_some hlast, List.map_append]
    rfl

/-- **The starts that an entry has met** in the end do to it what all starts do in their order. -/
theorem stopInTurn_startsMet (ha : es[k]? = some a) (stop : Int) :
    stopInTurn a.start (startsMet es k (indexPairs es.length)) stop =
      stopInTurn a.start (es.map (·.start)) stop := by
  obtain ⟨front, back, hrange, hfront, hback⟩ :=
    exists_range_eq (List.getElem?_eq_some_iff.1 ha).1
  have hall : es.map (·.start) =
      front.filterMap (startAt? es) ++ a.start :: back.filterMap (startAt? es) := by
    rw [← filterMap_startAt?_range, hrange, List.filterMap_append,
      List.filterMap_cons_some (startAt?_eq ha)]
  have hmet : startsMet es k (indexPairs es.length) =
      front.filterMap (startAt? es) ++ front.filterMap (startAt? es) ++
        back.filterMap (startAt? es) ++ back.filterMap (startAt? es) := by
    rw [startsMet, filterMap_partner?_indexPairs hrange hfront hback]
    simp only [List.filterMap_append, List.append_assoc]
  -- its own start does nothing to an entry
  have hself : ¬ (a.start < a.start ∧ a.start < stopInTurn a.start
      (front.filterMap (startAt? es)) stop) := by omega
  rw [hmet, stopInTurn_append_of_subset fun next hnext => List.mem_append_right _ hnext,
    stopInTurn_append, stopInTurn_append_of_subset fun next hnext => hnext, hall, stopInTurn_append,
    stopInTurn_cons, if_neg hself]

/-- **The links that an entry has met** in the end are the places of all entries one byte behind its
tag. -/
theorem linksMet_indexPairs (ha : es[k]? = some a) :
    linksMet es a k (indexPairs es.length) =
      (List.range es.length).filter fun j => startAt? es j = some (a.tagStop + 1) := by
  obtain ⟨front, back, hrange, hfront, hback⟩ :=
    exists_range_eq (List.getElem?_eq_some_iff.1 ha).1
  have hself : startAt? es k ≠ some (a.tagStop + 1) := by
    have := start_le_tagStop a
    rw [startAt?_eq ha, Ne, Option.some.injEq]
    omega
  have hown : linksMet es a k (pairsOf es.length k) =
      (List.range es.length).filter fun j => startAt? es j = some (a.tagStop + 1) := by
    have hsnd : ((fun p : Nat × Nat => p.2) ∘ fun j => (k, j)) = id := rfl
    rw [linksMet, pairsOf, List.filter_map, List.map_map, hsnd, List.map_id, List.filter_filter]
    refine List.filter_congr fun j _ => ?_
    by_cases hj : j = k
    · simp [hj, hself]
    · simp [hj]
  have hother (i : Nat) (hi : i ≠ k) : linksMet es a k (pairsOf es.length i) = [] := by
    rw [linksMet, List.map_eq_nil_iff, List.filter_eq_nil_iff]
    intro p hp
    obtain ⟨j, -, rfl⟩ := List.mem_map.1 hp
    simp [hi]
  have hpairs : linksMet es a k (indexPairs es.length) =
      (List.range es.length).flatMap fun i => linksMet es a k (pairsOf es.length i) := by
    rw [linksMet, indexPairs, List.filter_flatMap, List.map_flatMap]
    rfl
  have hnone (l : List Nat) : (l.flatMap fun _ => ([] : List Nat)) = [] :=
    List.flatMap_eq_nil_iff.2 fun _ _ => rfl
  rw [hpairs, flatMap_range_eq hrange hfront hback hother, hnone, hnone, hown, List.nil_append,
    List.append_nil]

/-! ### The entries after all pairs -/

theorem continuation?_eq_none_iff (ha : es[k]? = some a) :
    continuation? es k = none ↔ IsLast es a := by
  rw [continuation?, ha, Option.bind_some, List.getLast?_eq_none_iff, List.filter_eq_nil_iff]
  constructor
  · intro h b hb heq
    obtain ⟨j, hj⟩ := List.mem_iff_getElem?.1 hb
    refine h j (List.mem_range.2 (List.getElem?_eq_some_iff.1 hj).1) ?_
    rw [startAt?_eq hj, heq, decide_eq_true_iff]
  · intro h j _ hj
    obtain ⟨b, hb, heq⟩ := Option.map_eq_some_iff.1 (of_decide_eq_true hj)
    exact h b (List.mem_of_getElem? hb) heq.symm

theorem continuation?_eq_some (ha : es[k]? = some a) (h : continuation? es k = some j) :
    ∃ b, es[j]? = some b ∧ b.start = a.tagStop + 1 := by
  rw [continuation?, ha, Option.bind_some] at h
  have hj := (List.mem_filter.1 (List.mem_of_getLast? h)).2
  exact Option.map_eq_some_iff.1 (of_decide_eq_true hj)

/-- **What settling does to an entry**: it is linked to its continuation, and if there is none it is
cut off before the starts in turn. -/
theorem settle_spec (hfresh : ∀ e ∈ es, e.next = none) (ha : es[k]? = some a)
    (he : (settle es)[k]? = some e) :
    e.next = continuation? es k ∧
      (continuation? es k = none → e.stop = stopInTurn a.start (es.map (·.start)) a.stop) := by
  have h := (inTurn_settle hfresh).2 k a e ha he
  refine ⟨?_, fun hnone => ?_⟩
  · rw [h.next_eq, linksMet_indexPairs ha, continuation?, ha, Option.bind_some]
  · rw [h.stop_eq ((continuation?_eq_none_iff ha).1 hnone), stopInTurn_startsMet ha]

/-- **The last place of a chain**, which starts at `i` and goes from each entry to its
continuation. -/
structure IsChainEnd (es : List Entry) (i l : Nat) : Prop where
  chain : ReflTransGen (fun m n => continuation? es m = some n) i l
  last : continuation? es l = none

/-- A chain has one end. -/
theorem IsChainEnd.unique (h : IsChainEnd es i k) (h' : IsChainEnd es i l) : k = l := by
  have hunique : Relator.RightUnique fun m n => continuation? es m = some n := fun _ _ _ hn hn' =>
    Option.some.inj (hn.symm.trans hn')
  have hstop {m n : Nat} (hm : continuation? es m = none)
      (hmn : ReflTransGen (fun m n => continuation? es m = some n) m n) : m = n := by
    rcases ReflTransGen.cases_head hmn with heq | ⟨o, ho, -⟩
    · exact heq
    · rw [hm] at ho
      cases ho
  rcases ReflTransGen.total_of_right_unique hunique h.chain h'.chain with hgo | hgo
  · exact hstop h.last hgo
  · exact (hstop h'.last hgo).symm

/-- The entry that is reported is the one at the end of the chain. -/
theorem isChainEnd_lastContinuation (hfresh : ∀ e ∈ es, e.next = none) (ha : es[i]? = some a) :
    IsChainEnd es i (lastContinuation (settle es) i) ∧
      ∃ b, es[lastContinuation (settle es) i]? = some b := by
  have hturn := inTurn_settle hfresh
  have hlinked : Became (fun _ => Linked es) es (settle es) :=
    linked_foldl_relate hfresh _ fun _ hp => hp
  obtain ⟨d, hd, -⟩ := hturn.exists ha
  obtain ⟨hchain, f, hf, hnext⟩ := lastContinuation_spec hlinked.forward hd
  have hlink (m : Nat) (x : Entry) (hx : (settle es)[m]? = some x) :
      x.next = continuation? es m := by
    obtain ⟨c, hc, -⟩ := hturn.exists_of hx
    exact (settle_spec hfresh hc hx).1
  obtain ⟨b, hb, -⟩ := hturn.exists_of hf
  refine ⟨⟨ReflTransGen.mono (fun m n hmn => ?_) _ _ hchain, ?_⟩, b, hb⟩
  · obtain ⟨x, hx, hxn⟩ := hmn
    rw [← hlink m x hx, hxn]
  · rw [← hlink _ f hf, hnext]

end HostBridge.Task
