import HostBridge.Proofs.Task.Chains

/-!
# Where entries end

An entry is cut off before each entry further on that it reaches into. It may have been cut before,
by an entry nearer or farther away, so what a pair does to it depends on the pairs settled before.
What comes out does not. As long as an entry is not continued, its end is reported as it stands at
that moment, and the following is true of the end all the time, `CutBy`: it is not behind the first
end, it is before all those starts that have been compared with it, and it is the first end or just
before a start. After the last pair this leaves one value only, `stopBefore`.

The invariant needs the entries to be `Spaced`: an end is never the start of another entry, for such
an entry is not cut, and it does not come before the start either.

* `settled_settle` — the invariant after all pairs;
* `marker_settle` — the marker of an entry, in terms of the entries before settling.
-/

namespace HostBridge.Task

open Relation (ReflTransGen)

variable {es es' : List Entry} {i j k : Nat} {a b e : Entry}

/-! ### The end before the next start -/

/-- The end of what goes from `start` to `stop` if it has to end before the nearest of some starts
further on. -/
def stopBefore (starts : List Int) (start stop : Int) : Int :=
  match (starts.filter (start < ·)).min? with
  | some next => min stop (next - 1)
  | none => stop

/-- **What the end before the next start is**: not behind the given end, before all starts further
on, and the given end or just before a start. -/
structure EndsBefore (starts : List Int) (start stop stop' : Int) : Prop where
  le : stop' ≤ stop
  lt : ∀ next ∈ starts, start < next → stop' < next
  eq : stop' = stop ∨ ∃ next ∈ starts, start < next ∧ stop' = next - 1

theorem endsBefore_stopBefore (starts : List Int) (start stop : Int) :
    EndsBefore starts start stop (stopBefore starts start stop) := by
  have hlater (s : Int) : s ∈ starts.filter (start < ·) ↔ s ∈ starts ∧ start < s := by
    rw [List.mem_filter, decide_eq_true_iff]
  rw [stopBefore]
  cases hmin : (starts.filter (start < ·)).min? with
  | none =>
    -- no start is further on
    rw [List.min?_eq_none_iff.1 hmin] at hlater
    exact ⟨Int.le_refl _, fun next hnext hafter =>
      absurd ((hlater next).2 ⟨hnext, hafter⟩) List.not_mem_nil, Or.inl rfl⟩
  | some nearest =>
    obtain ⟨hnearest, hleast⟩ := List.min?_eq_some_iff.1 hmin
    obtain ⟨hmem, hafter⟩ := (hlater nearest).1 hnearest
    refine ⟨Int.min_le_left _ _, fun next hnext hafter' => ?_, ?_⟩
    · have := hleast next ((hlater next).2 ⟨hnext, hafter'⟩)
      dsimp only
      omega
    · rcases Int.le_total stop (nearest - 1) with hle | hle
      · exact Or.inl (Int.min_eq_left hle)
      · exact Or.inr ⟨nearest, hmem, hafter, Int.min_eq_right hle⟩

/-- There is no other such end. -/
theorem EndsBefore.eq_stopBefore {starts : List Int} {start stop stop' : Int}
    (h : EndsBefore starts start stop stop') : stopBefore starts start stop = stop' := by
  have hspec := endsBefore_stopBefore starts start stop
  have hle := h.le
  have hle' := hspec.le
  -- each of the two is attained, where the other one is not farther away
  rcases h.eq with heq | ⟨next, hnext, hafter, heq⟩
  · rcases hspec.eq with heq' | ⟨next', hnext', hafter', heq'⟩
    · omega
    · have := h.lt next' hnext' hafter'
      omega
  · have := hspec.lt next hnext hafter
    rcases hspec.eq with heq' | ⟨next', hnext', hafter', heq'⟩
    · omega
    · have := h.lt next' hnext' hafter'
      omega

/-- The order of the starts does not matter. -/
theorem stopBefore_congr {starts starts' : List Int} (hmem : ∀ s, s ∈ starts ↔ s ∈ starts')
    (start stop : Int) : stopBefore starts start stop = stopBefore starts' start stop := by
  have hspec := endsBefore_stopBefore starts' start stop
  refine EndsBefore.eq_stopBefore ⟨hspec.le, fun next hnext => hspec.lt next ((hmem next).1 hnext),
    hspec.eq.imp id ?_⟩
  rintro ⟨next, hnext, hafter, heq⟩
  exact ⟨next, (hmem next).2 hnext, hafter, heq⟩

/-! ### The end of an entry while pairs are settled -/

/-- **Entries that keep a distance**: no entry starts one byte behind another one, or at the end of
another one. -/
structure Spaced (es : List Entry) : Prop where
  fresh : ∀ e ∈ es, e.next = none
  starts : ∀ a ∈ es, ∀ b ∈ es, b.start ≠ a.start + 1
  stops : ∀ a ∈ es, ∀ b ∈ es, a.stop ≠ b.start

/-- There is no entry that continues this one. -/
def IsLast (es : List Entry) (a : Entry) : Prop := ∀ b ∈ es, a.tagStop + 1 ≠ b.start

/-- **The end of an entry** that has met the entries at some places. -/
structure CutBy (es : List Entry) (met : Nat → Prop) (a : Entry) (stop : Int) : Prop where
  le : stop ≤ a.stop
  lt : ∀ j b, met j → es[j]? = some b → a.start < b.start → stop < b.start
  eq : stop = a.stop ∨ ∃ b ∈ es, a.start < b.start ∧ stop = b.start - 1

section CutBy

variable {met : Nat → Prop} {stop : Int}

/-- An end is not where another entry starts. -/
theorem CutBy.ne_start (h : CutBy es met a stop) (hspaced : Spaced es) (ha : a ∈ es) (hb : b ∈ es) :
    stop ≠ b.start := by
  rcases h.eq with heq | ⟨c, hc, -, heq⟩
  · exact heq ▸ hspaced.stops a ha b hb
  · have := hspaced.starts b hb c hc
    omega

/-- An entry that is cut before another one has met this one, too. -/
theorem CutBy.meet (h : CutBy es met a stop) (hspaced : Spaced es) (ha : a ∈ es)
    (hb : es[j]? = some b) : CutBy es (fun m => met m ∨ m = j) a
      (if a.start < b.start ∧ b.start < stop then b.start - 1 else stop) := by
  have hmem := List.mem_of_getElem? hb
  split
  · next hcut =>
    refine ⟨by have := h.le; omega, fun m c hm hc hlt => ?_, Or.inr ⟨b, hmem, hcut.1, rfl⟩⟩
    rcases hm with hm | rfl
    · have := h.lt m c hm hc hlt
      omega
    · obtain rfl := Option.some.inj (hb.symm.trans hc)
      omega
  · next hcut =>
    refine ⟨h.le, fun m c hm hc hlt => ?_, h.eq⟩
    rcases hm with hm | rfl
    · exact h.lt m c hm hc hlt
    · obtain rfl := Option.some.inj (hb.symm.trans hc)
      have := h.ne_start hspaced ha hmem
      omega

theorem CutBy.imp {met' : Nat → Prop} (h : CutBy es met a stop) (himp : ∀ m, met' m → met m) :
    CutBy es met' a stop :=
  ⟨h.le, fun m b hm => h.lt m b (himp m hm), h.eq⟩

end CutBy

/-! ### Settling all pairs -/

/-- **What becomes of the entry `a`** at the place `k` as soon as some pairs have been settled. It
has a link if it has met an entry that continues it, and no other entry has cut it if there is no
such entry. -/
structure Settled (es : List Entry) (done : List (Nat × Nat)) (k : Nat) (a e : Entry) : Prop
    extends Linked es a e where
  links : ∀ j b, (k, j) ∈ done → es[j]? = some b → a.tagStop + 1 = b.start → e.next ≠ none
  cut : IsLast es a → CutBy es (fun j => (k, j) ∈ done) a e.stop

variable {done : List (Nat × Nat)}

/-- The last entry of a chain has no link. -/
theorem Linked.next_eq_none (h : Linked es a e) (hlast : IsLast es a) : e.next = none := by
  cases hnext : e.next with
  | none => rfl
  | some j =>
    obtain ⟨b, hb, hstart⟩ := h.next j hnext
    exact absurd hstart (hlast b (List.mem_of_getElem? hb))

/-- As long as the entry is last, its end changes just as if it had met the other one. -/
theorem Settled.cut_cutBefore (h : Settled es done k a e) (hspaced : Spaced es)
    (ha : es[k]? = some a) (he : es'[k]? = some e) (hb : es[j]? = some b) (hlast : IsLast es a) :
    CutBy es (fun m => (k, m) ∈ done ∨ m = j) a
      (e.cutBefore (reportedStop es' k) b.start).stop := by
  have hreported := reportedStop_of_next_eq_none he (h.toLinked.next_eq_none hlast)
  have hmeet := (h.cut hlast).meet hspaced (List.mem_of_getElem? ha) hb
  rw [Entry.cutBefore, hreported, h.toLinked.start_eq]
  split
  · next hcut => rwa [if_pos hcut] at hmeet
  · next hcut => rwa [if_neg hcut] at hmeet

/-- The first entry of a pair has met the second one then. -/
theorem Settled.first (h : Settled es done i a e) (hspaced : Spaced es) (ha : es[i]? = some a)
    (he : es'[i]? = some e) (hb : es[j]? = some b) :
    Settled es (done ++ [(i, j)]) i a (if a.tagStop + 1 = b.start then { e with next := some j }
      else e.cutBefore (reportedStop es' i) b.start) := by
  have hdone (m : Nat) : (i, m) ∈ done ++ [(i, j)] ↔ (i, m) ∈ done ∨ m = j := by
    rw [List.mem_append, List.mem_singleton, Prod.mk.injEq]
    exact or_congr_right (and_iff_right rfl)
  split
  · next hadjacent =>
    -- the entry is not the last one any more, so its end does not matter
    refine ⟨h.toLinked.link hb hadjacent, fun _ _ _ _ _ => Option.some_ne_none j, fun hlast => ?_⟩
    exact absurd hadjacent (hlast b (List.mem_of_getElem? hb))
  · next hapart =>
    refine ⟨h.toLinked.cutBefore _ _, fun m c hm hc hstart => ?_, fun hlast => ?_⟩
    · rw [Entry.next_cutBefore]
      rcases (hdone m).1 hm with hm | rfl
      · exact h.links m c hm hc hstart
      · obtain rfl := Option.some.inj (hb.symm.trans hc)
        exact absurd hstart hapart
    · exact (h.cut_cutBefore hspaced ha he hb hlast).imp fun m hm => (hdone m).1 hm

/-- A pair is none of the pairs of an entry that does not come first in it. -/
theorem Settled.other (h : Settled es done k a e) (hk : k ≠ i) :
    Settled es (done ++ [(i, j)]) k a e := by
  have hdone (m : Nat) (hm : (k, m) ∈ done ++ [(i, j)]) : (k, m) ∈ done := by
    rcases List.mem_append.1 hm with hm | hm
    · exact hm
    · rw [List.mem_singleton, Prod.mk.injEq] at hm
      exact absurd hm.1 hk
  exact ⟨h.toLinked, fun m c hm => h.links m c (hdone m hm), fun hlast =>
    (h.cut hlast).imp hdone⟩

/-- The second entry of a pair may be cut before the first one. It need not count as met: it is the
first one of another pair. -/
theorem Settled.second (h : Settled es done j b e) (hspaced : Spaced es) (hb : es[j]? = some b)
    (he : es'[j]? = some e) (ha : es[i]? = some a) (hij : i ≠ j) :
    Settled es (done ++ [(i, j)]) j b (e.cutBefore (reportedStop es' j) a.start) := by
  have hcut : Settled es done j b (e.cutBefore (reportedStop es' j) a.start) := by
    refine ⟨h.toLinked.cutBefore _ _, fun m c hm hc hstart => ?_, fun hlast => ?_⟩
    · rw [Entry.next_cutBefore]
      exact h.links m c hm hc hstart
    · exact (h.cut_cutBefore hspaced hb he ha hlast).imp fun m hm => Or.inl hm
  exact hcut.other hij.symm

/-- **A pair keeps the invariant**, and it has been settled then. -/
theorem settled_relate (hspaced : Spaced es) (h : Became (Settled es done) es es')
    (hi : i < es.length) (hj : j < es.length) (hij : i ≠ j) :
    Became (Settled es (done ++ [(i, j)])) es (relate es' i j) := by
  refine h.relate hij hi hj (fun a b a' b' ha hb ha' hPa hPb => ?_)
    (fun a b a' b' ha hb hb' hPa hPb => ?_) fun k a e hki _ hP => hP.other hki
  · rw [hPa.toLinked.tagStop_eq, hPb.toLinked.start_eq]
    exact hPa.first hspaced ha ha' hb
  · rw [hPa.toLinked.start_eq]
    exact hPb.second hspaced hb hb' ha hij

theorem settled_settle (hspaced : Spaced es) :
    Became (Settled es (indexPairs es.length)) es (settle es) := by
  have hstart : Became (Settled es []) es es := .refl fun k a ha => by
    have hnext := hspaced.fresh a (List.mem_of_getElem? ha)
    refine ⟨⟨rfl, fun j hj => ?_⟩, fun j b hj => absurd hj List.not_mem_nil, fun _ =>
      ⟨Int.le_refl _, fun j b hj => absurd hj List.not_mem_nil, Or.inl rfl⟩⟩
    rw [hnext] at hj
    cases hj
  exact Became.foldl_relate (fun _ _ _ _ hi hj hij h => settled_relate hspaced h hi hj hij) _ []
    (fun _ hp => hp) hstart

/-! ### What is reported -/

/-- The entry at the second place starts one byte behind the tag of the entry at the first. -/
def Continues (es : List Entry) (i j : Nat) : Prop :=
  ∃ a b, es[i]? = some a ∧ es[j]? = some b ∧ a.tagStop + 1 = b.start

/-- **The marker of an entry** has the text of the last entry of its chain, and the end of this one
unless another entry starts before. -/
theorem marker_settle (tags : TaskTags) (hspaced : Spaced es) (ha : es[i]? = some a)
    (he : (settle es)[i]? = some e) :
    ∃ l b, ReflTransGen (Continues es) i l ∧ es[l]? = some b ∧ IsLast es b ∧
      e.marker tags (settle es) i =
        { tag := a.tag, message := b.message, priority := tags.priority? a.tagIndex,
          start := a.start, stop := stopBefore (es.map (·.start)) b.start b.stop } := by
  have hsettled := settled_settle hspaced
  have hlinked : Became (fun _ => Linked es) es (settle es) :=
    ⟨hsettled.1, fun k c d hc hd => (hsettled.2 k c d hc hd).toLinked⟩
  obtain ⟨hchain, d, hd, hnext⟩ := lastContinuation_spec hlinked.forward he
  obtain ⟨b, hb, hP⟩ := hsettled.exists_of hd
  have hlinks (m n : Nat) (hmn : LinksTo (settle es) m n) : Continues es m n := by
    obtain ⟨f, hf, hfn⟩ := hmn
    obtain ⟨c, hc, hP'⟩ := hlinked.exists_of hf
    obtain ⟨c', hc', hstart⟩ := hP'.next n hfn
    exact ⟨c, c', hc, hc', hstart⟩
  -- of the entry itself only what no pair changes is reported
  have hmarker : e.marker tags (settle es) i =
      { tag := a.tag, message := d.message, priority := tags.priority? a.tagIndex,
        start := a.start, stop := d.stop } := by
    have hsame := (hsettled.2 i a e ha he).same
    rw [Entry.marker, List.getD_eq_getElem?_getD, hd, hsame]
    rfl
  generalize lastContinuation (settle es) i = l at hchain hd hb hP
  -- the entry has met all the others, so one that continued it would be linked to it
  have hmet (j : Nat) (c : Entry) (hc : es[j]? = some c) (hne : b.start ≠ c.start) :
      (l, j) ∈ indexPairs es.length := by
    refine mem_indexPairs.2 ⟨(List.getElem?_eq_some_iff.1 hb).1, (List.getElem?_eq_some_iff.1 hc).1,
      fun hjl => hne ?_⟩
    obtain rfl : j = l := hjl
    rw [Option.some.inj (hb.symm.trans hc)]
  have hlast : IsLast es b := by
    intro c hc hstart
    obtain ⟨j, hj⟩ := List.mem_iff_getElem?.1 hc
    have := start_le_tagStop b
    exact hP.links j c (hmet j c hj (by omega)) hj hstart hnext
  have hcut := hP.cut hlast
  have hstop : stopBefore (es.map (·.start)) b.start b.stop = d.stop := by
    refine EndsBefore.eq_stopBefore ⟨hcut.le, fun s hs hlt => ?_, hcut.eq.imp id ?_⟩
    · obtain ⟨c, hc, rfl⟩ := List.mem_map.1 hs
      obtain ⟨j, hj⟩ := List.mem_iff_getElem?.1 hc
      exact hcut.lt j c (hmet j c hj (by omega)) hj hlt
    · rintro ⟨c, hc, hlt, heq⟩
      exact ⟨c.start, List.mem_map_of_mem hc, hlt, heq⟩
  refine ⟨l, b, ReflTransGen.mono hlinks _ _ hchain, hb, hlast, ?_⟩
  rw [hmarker, hstop, hP.toLinked.message_eq]

end HostBridge.Task
