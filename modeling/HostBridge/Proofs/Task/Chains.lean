import HostBridge.Task.Scan
import Mathlib.Logic.Relation

/-!
# Chains of entries

Settling a pair changes at most one of its two entries, and of that one the end or the link alone.
The three equations for `relate` say so place by place: `getElem?_relate_first`,
`getElem?_relate_second` and `getElem?_relate_other`. All that is known about the entries follows
from them, `Became.relate`, and by induction on the pairs that have been settled,
`Became.foldl_relate`.

The first thing to follow is that the links make sense at every moment, `Linked`: the entry that a
link leads to starts one byte behind the tag, hence further on. So a chain of links meets each entry
once at most, and following as many links as there are entries leads to its end:

* `linked_foldl_relate` — each link leads to the next entry of a chain, whichever pairs have been
  settled;
* `follow_spec` — the links lead to an entry without a link, if there are enough of them;
* `lastContinuation_spec` — there are always enough.
-/

namespace HostBridge.Task

open Relation (ReflTransGen)

variable {es es' : List Entry} {i j k : Nat} {a b e : Entry}

/-! ### Settling a pair -/

/-- An entry that is reported to end at `reported`, after it has met one that starts at `limit`. -/
def Entry.cutBefore (e : Entry) (reported limit : Int) : Entry :=
  if e.start < limit ∧ limit < reported then { e with stop := limit - 1 } else e

@[simp] theorem Entry.next_cutBefore (e : Entry) (reported limit : Int) :
    (e.cutBefore reported limit).next = e.next := by
  rw [Entry.cutBefore]
  split <;> rfl

theorem start_le_tagStop (e : Entry) : e.start ≤ e.tagStop := by
  rw [Entry.tagStop]
  omega

/-- What a pair does to its first entry. -/
theorem getElem?_relate_first (ha : es[i]? = some a) (hb : es[j]? = some b) (hij : i ≠ j) :
    (relate es i j)[i]? = some (if a.tagStop + 1 = b.start then { a with next := some j }
      else a.cutBefore (reportedStop es i) b.start) := by
  have hi := (List.getElem?_eq_some_iff.1 ha).1
  rw [relate, ha, hb]
  dsimp only
  by_cases hadjacent : a.tagStop + 1 = b.start
  · rw [if_pos hadjacent, if_pos hadjacent, List.getElem?_set_self hi]
  · rw [if_neg hadjacent, if_neg hadjacent, Entry.cutBefore]
    by_cases hcut : a.start < b.start ∧ b.start < reportedStop es i
    · rw [if_pos hcut, if_pos hcut.symm, List.getElem?_set_self hi]
    · rw [if_neg hcut, if_neg (fun h => hcut h.symm)]
      -- at most the other entry is cut
      split
      · rw [List.getElem?_set_ne hij.symm, ha]
      · exact ha

/-- What a pair does to its second entry. -/
theorem getElem?_relate_second (ha : es[i]? = some a) (hb : es[j]? = some b) (hij : i ≠ j) :
    (relate es i j)[j]? = some (b.cutBefore (reportedStop es j) a.start) := by
  have hj := (List.getElem?_eq_some_iff.1 hb).1
  have htag := start_le_tagStop a
  rw [relate, ha, hb, Entry.cutBefore]
  dsimp only
  by_cases hcut : b.start < a.start ∧ a.start < reportedStop es j
  · -- the first entry starts later, so the pair does nothing to it
    rw [if_neg (by omega), if_neg (by omega), if_pos hcut.symm, if_pos hcut,
      List.getElem?_set_self hj]
  · rw [if_neg hcut]
    split
    · rw [List.getElem?_set_ne hij, hb]
    · split
      · rw [List.getElem?_set_ne hij, hb]
      · rw [if_neg (fun h => hcut h.symm), hb]

/-- At most one of the two entries is replaced. -/
theorem relate_eq_set_or (es : List Entry) (i j : Nat) :
    relate es i j = es ∨ ∃ k e, (k = i ∨ k = j) ∧ relate es i j = es.set k e := by
  rw [relate]
  split
  · split
    · exact Or.inr ⟨i, _, Or.inl rfl, rfl⟩
    · split
      · exact Or.inr ⟨i, _, Or.inl rfl, rfl⟩
      · split
        · exact Or.inr ⟨j, _, Or.inr rfl, rfl⟩
        · exact Or.inl rfl
  · exact Or.inl rfl

/-- A pair does nothing to the other entries. -/
theorem getElem?_relate_other (es : List Entry) (hi : k ≠ i) (hj : k ≠ j) :
    (relate es i j)[k]? = es[k]? := by
  rcases relate_eq_set_or es i j with hsame | ⟨m, e, rfl | rfl, hset⟩
  · rw [hsame]
  · rw [hset, List.getElem?_set_ne hi.symm]
  · rw [hset, List.getElem?_set_ne hj.symm]

@[simp] theorem length_relate (es : List Entry) (i j : Nat) :
    (relate es i j).length = es.length := by
  rcases relate_eq_set_or es i j with hsame | ⟨m, e, -, hset⟩
  · rw [hsame]
  · rw [hset, List.length_set]

/-! ### Links -/

/-- **What becomes of an entry `a`**: its end and its link may change, and a link leads to the entry
that starts one byte behind the tag. -/
structure Linked (es : List Entry) (a e : Entry) : Prop where
  same : e = { a with stop := e.stop, next := e.next }
  next : ∀ j, e.next = some j → ∃ b, es[j]? = some b ∧ a.tagStop + 1 = b.start

theorem Linked.start_eq (h : Linked es a e) : e.start = a.start := by rw [h.same]

theorem Linked.tagStop_eq (h : Linked es a e) : e.tagStop = a.tagStop := by
  rw [h.same]
  rfl

theorem Linked.message_eq (h : Linked es a e) : e.message = a.message := by rw [h.same]

theorem Linked.cutBefore (h : Linked es a e) (reported limit : Int) :
    Linked es a (e.cutBefore reported limit) := by
  rw [Entry.cutBefore]
  split
  · exact ⟨by rw [h.same], h.next⟩
  · exact h

theorem Linked.link (h : Linked es a e) (hb : es[j]? = some b) (hstart : a.tagStop + 1 = b.start) :
    Linked es a { e with next := some j } where
  same := by rw [h.same]
  next k hk := by
    obtain rfl := Option.some.inj hk
    exact ⟨b, hb, hstart⟩

/-- **The entries after some pairs have been settled**: each one is what has become of the entry
that was at its place. -/
def Became (P : Nat → Entry → Entry → Prop) (es es' : List Entry) : Prop :=
  es'.length = es.length ∧ ∀ k a e, es[k]? = some a → es'[k]? = some e → P k a e

theorem Became.refl {P : Nat → Entry → Entry → Prop} (h : ∀ k a, es[k]? = some a → P k a a) :
    Became P es es := by
  refine ⟨rfl, fun k a e ha he => ?_⟩
  obtain rfl := Option.some.inj (ha.symm.trans he)
  exact h k a ha

theorem Became.exists {P : Nat → Entry → Entry → Prop} (h : Became P es es')
    (ha : es[k]? = some a) : ∃ e, es'[k]? = some e ∧ P k a e := by
  have hk : k < es'.length := h.1 ▸ (List.getElem?_eq_some_iff.1 ha).1
  exact ⟨es'[k], List.getElem?_eq_getElem hk, h.2 k a _ ha (List.getElem?_eq_getElem hk)⟩

theorem Became.exists_of {P : Nat → Entry → Entry → Prop} (h : Became P es es')
    (he : es'[k]? = some e) : ∃ a, es[k]? = some a ∧ P k a e := by
  have hk : k < es.length := h.1 ▸ (List.getElem?_eq_some_iff.1 he).1
  exact ⟨es[k], List.getElem?_eq_getElem hk, h.2 k _ e (List.getElem?_eq_getElem hk) he⟩

/-- **A pair keeps a property of what becomes of the entries** if each of the three things that it
does keeps it. -/
theorem Became.relate {P P' : Nat → Entry → Entry → Prop} (h : Became P es es') (hij : i ≠ j)
    (hi : i < es.length) (hj : j < es.length)
    (first : ∀ a b a' b', es[i]? = some a → es[j]? = some b → es'[i]? = some a' → P i a a' →
      P j b b' → P' i a (if a'.tagStop + 1 = b'.start then { a' with next := some j }
        else a'.cutBefore (reportedStop es' i) b'.start))
    (second : ∀ a b a' b', es[i]? = some a → es[j]? = some b → es'[j]? = some b' → P i a a' →
      P j b b' → P' j b (b'.cutBefore (reportedStop es' j) a'.start))
    (other : ∀ k a e, k ≠ i → k ≠ j → P k a e → P' k a e) :
    Became P' es (Task.relate es' i j) := by
  have ha := List.getElem?_eq_getElem hi
  have hb := List.getElem?_eq_getElem hj
  obtain ⟨a', ha', hPa⟩ := h.exists ha
  obtain ⟨b', hb', hPb⟩ := h.exists hb
  refine ⟨by rw [length_relate, h.1], fun k e e' he he' => ?_⟩
  by_cases hki : k = i
  · subst hki
    obtain rfl := Option.some.inj (ha.symm.trans he)
    rw [getElem?_relate_first ha' hb' hij] at he'
    exact Option.some.inj he' ▸ first _ _ a' b' ha hb ha' hPa hPb
  · by_cases hkj : k = j
    · subst hkj
      obtain rfl := Option.some.inj (hb.symm.trans he)
      rw [getElem?_relate_second ha' hb' hij] at he'
      exact Option.some.inj he' ▸ second _ _ a' b' ha hb hb' hPa hPb
    · rw [getElem?_relate_other es' hki hkj] at he'
      exact other k e e' hki hkj (h.2 k e e' he he')

theorem mem_indexPairs {n : Nat} {p : Nat × Nat} :
    p ∈ indexPairs n ↔ p.1 < n ∧ p.2 < n ∧ p.2 ≠ p.1 := by
  obtain ⟨i, j⟩ := p
  simp [indexPairs]

/-- **Whatever each pair keeps holds after any of them.** A property may depend on the pairs that
have been settled. -/
theorem Became.foldl_relate {P : List (Nat × Nat) → Nat → Entry → Entry → Prop}
    (step : ∀ done es' i j, i < es.length → j < es.length → i ≠ j → Became (P done) es es' →
      Became (P (done ++ [(i, j)])) es (Task.relate es' i j))
    (pairs done : List (Nat × Nat)) (hpairs : ∀ p ∈ pairs, p ∈ indexPairs es.length)
    (h : Became (P done) es es') :
    Became (P (done ++ pairs)) es
      (pairs.foldl (fun es (i, j) => Task.relate es i j) es') := by
  induction pairs generalizing es' done with
  | nil => rwa [List.append_nil]
  | cons p pairs ih =>
    obtain ⟨i, j⟩ := p
    obtain ⟨hi, hj, hij⟩ := mem_indexPairs.1 (hpairs (i, j) List.mem_cons_self)
    have hstep := step done es' i j hi hj hij.symm h
    have hrun := ih _ (fun q hq => hpairs q (List.mem_cons_of_mem _ hq)) hstep
    rwa [List.append_assoc] at hrun

/-- **Each link leads on**, whichever pairs have been settled. -/
theorem linked_foldl_relate (hfresh : ∀ e ∈ es, e.next = none) (pairs : List (Nat × Nat))
    (hpairs : ∀ p ∈ pairs, p ∈ indexPairs es.length) :
    Became (fun _ => Linked es) es (pairs.foldl (fun es (i, j) => relate es i j) es) := by
  have hstart : Became (fun _ => Linked es) es es := .refl fun k a ha => by
    refine ⟨rfl, fun j hj => ?_⟩
    rw [hfresh a (List.mem_of_getElem? ha)] at hj
    cases hj
  refine Became.foldl_relate (P := fun _ _ => Linked es)
    (fun _ es' i j hi hj hij h => h.relate hij hi hj ?_ ?_ ?_) pairs [] hpairs hstart
  · intro a b a' b' _ hb _ hPa hPb
    split
    · next hadjacent =>
      rw [hPa.tagStop_eq, hPb.start_eq] at hadjacent
      exact hPa.link hb hadjacent
    · exact hPa.cutBefore _ _
  · intro a b a' b' _ _ _ _ hPb
    exact hPb.cutBefore _ _
  · intro k a e _ _ hlinked
    exact hlinked

/-! ### Following the links -/

/-- An entry of a list is continued by another one. -/
def LinksTo (es : List Entry) (i j : Nat) : Prop := ∃ e, es[i]? = some e ∧ e.next = some j

/-- **Each link leads forward**, to an entry that starts later. -/
def Forward (es : List Entry) : Prop :=
  ∀ (i j : Nat) (a : Entry), es[i]? = some a → a.next = some j →
    ∃ b, es[j]? = some b ∧ a.start < b.start

/-- The number of entries that start later than an offset. -/
def laterCount (es : List Entry) (start : Int) : Nat := es.countP (start < ·.start)

theorem laterCount_lt (hb : b ∈ es) {start : Int} (h : start < b.start) :
    laterCount es b.start < laterCount es start := by
  induction es with
  | nil => exact absurd hb List.not_mem_nil
  | cons c es ih =>
    have hle : laterCount es b.start ≤ laterCount es start :=
      List.countP_mono_left fun e _ he => by
        rw [decide_eq_true_iff] at he ⊢
        omega
    simp only [laterCount, List.countP_cons, decide_eq_true_eq] at hle ih ⊢
    rcases List.mem_cons.1 hb with rfl | hb
    · rw [if_neg (Int.lt_irrefl _), if_pos h]
      omega
    · have := ih hb
      split
      · rw [if_pos (by omega)]
        omega
      · omega

/-- **The links lead to an end** if they lead forward, and not more of them are needed than there
are entries further on. -/
theorem follow_spec (hforward : Forward es) {links : Nat} (ha : es[i]? = some a)
    (hlinks : laterCount es a.start ≤ links) :
    ReflTransGen (LinksTo es) i (follow es links i) ∧
      ∃ e, es[follow es links i]? = some e ∧ e.next = none := by
  induction links generalizing i a with
  | zero =>
    refine ⟨.refl, a, ha, ?_⟩
    cases hnext : a.next with
    | none => rfl
    | some j =>
      -- one entry at least starts later
      obtain ⟨b, hb, hlt⟩ := hforward i j a ha hnext
      have := laterCount_lt (List.mem_of_getElem? hb) hlt
      omega
  | succ links ih =>
    rw [follow, ha, Option.bind_some]
    cases hnext : a.next with
    | none => exact ⟨.refl, a, ha, hnext⟩
    | some j =>
      obtain ⟨b, hb, hlt⟩ := hforward i j a ha hnext
      -- less lies behind the next entry than behind this one, so one link less is enough
      have := laterCount_lt (List.mem_of_getElem? hb) hlt
      obtain ⟨hchain, hend⟩ := ih hb (by omega)
      exact ⟨.head ⟨a, ha, hnext⟩ hchain, hend⟩

theorem lastContinuation_spec (hforward : Forward es) (ha : es[i]? = some a) :
    ReflTransGen (LinksTo es) i (lastContinuation es i) ∧
      ∃ e, es[lastContinuation es i]? = some e ∧ e.next = none :=
  follow_spec hforward ha List.countP_le_length

/-- An entry that is not continued is reported as it is. -/
theorem reportedStop_of_next_eq_none (ha : es[i]? = some a) (hnext : a.next = none) :
    reportedStop es i = a.stop := by
  have hlast : lastContinuation es i = i := by
    rw [lastContinuation]
    cases es.length with
    | zero => rfl
    | succ n => rw [follow, ha, Option.bind_some, hnext]
  rw [reportedStop, hlast, ha]
  rfl

/-- What becomes of the entries links forward. -/
theorem Became.forward (h : Became (fun _ => Linked es) es es') : Forward es' := by
  intro i j e he hnext
  obtain ⟨a, ha, hlinked⟩ := h.exists_of he
  obtain ⟨b, hb, hstart⟩ := hlinked.next j hnext
  obtain ⟨b', hb', hlinked'⟩ := h.exists hb
  have := start_le_tagStop a
  refine ⟨b', hb', ?_⟩
  rw [hlinked.start_eq, hlinked'.start_eq]
  omega

end HostBridge.Task
