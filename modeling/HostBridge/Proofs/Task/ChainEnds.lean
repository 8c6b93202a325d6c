import HostBridge.Proofs.Task.Overlap
import Mathlib.Data.List.Dedup
import Mathlib.Data.List.Perm.Subperm

/-!
# Chains reach their end

Settling a pair asks for the ends of both entries, so links are followed while others are still
being made. Tags may be repeated, overlap or consist of one byte: then several entries start at the
same offset, and a link is replaced by one to another of them. Neither matters. At every moment a
link leads to an entry that starts later, `Forward`, so the entries of a chain start at different
offsets, and there are at least as many entries as the chain has.

* `length_le_of_isChain` — a chain has at most as many entries as there are different starts;
* `follow_of_length_le` — more links than there are entries make no difference;
* `chains_end` — all of this at every moment of settling the entries of a comment.
-/

namespace HostBridge.Task

open Offset (IsChecked)
open Relation (ReflTransGen)

variable {es : List Entry} {tags : TaskTags} {c : Source.Comment} {i j k m n : Nat}
  {places : List Nat}

/-! ### Chains -/

/-- **The end of a chain** that starts at `i`: the links lead there, and no further. -/
structure ReachesEnd (es : List Entry) (i last : Nat) : Prop where
  chain : ReflTransGen (LinksTo es) i last
  last : ∃ e, es[last]? = some e ∧ e.next = none

/-- A link is read off the entry that it leads from. -/
instance (es : List Entry) (i j : Nat) : Decidable (LinksTo es i j) :=
  decidable_of_iff (es[i]?.bind (·.next) = some j) Option.bind_eq_some_iff

/-- Each link leads forward, read off the starts. -/
theorem Forward.startAt?_lt (h : Forward es) (hlink : LinksTo es i j) :
    ∃ x y, startAt? es i = some x ∧ startAt? es j = some y ∧ x < y := by
  obtain ⟨a, ha, hnext⟩ := hlink
  obtain ⟨b, hb, hlt⟩ := h i j a ha hnext
  exact ⟨a.start, b.start, startAt?_eq ha, startAt?_eq hb, hlt⟩

/-- The starts of the entries of a chain ascend. -/
theorem Forward.pairwise_starts (h : Forward es) (hchain : places.IsChain (LinksTo es)) :
    (places.filterMap (startAt? es)).Pairwise (· < ·) := by
  rw [← List.isChain_iff_pairwise]
  induction places with
  | nil => exact .nil
  | cons i places ih =>
    cases places with
    | nil =>
      rw [List.filterMap_cons]
      cases startAt? es i with
      | none => exact .nil
      | some x => exact .singleton x
    | cons j places =>
      obtain ⟨hlink, hrest⟩ := List.isChain_cons_cons.1 hchain
      obtain ⟨x, y, hx, hy, hlt⟩ := h.startAt?_lt hlink
      have hstarts := ih hrest
      rw [List.filterMap_cons_some hy] at hstarts
      rw [List.filterMap_cons_some hx, List.filterMap_cons_some hy]
      exact .cons_cons hlt hstarts

/-- **A chain has at most as many entries as there are different starts.** -/
theorem Forward.length_le_of_isChain (h : Forward es) (hchain : places.IsChain (LinksTo es))
    (hplaces : ∀ k ∈ places, k < es.length) :
    places.length ≤ (es.map (·.start)).dedup.length := by
  -- each entry of the chain has a start, and no two of these are the same
  have hstarts : (places.filterMap (startAt? es)).length = places.length := by
    rw [List.length_filterMap_eq_countP, List.countP_eq_length]
    intro k hk
    rw [startAt?, List.getElem?_eq_getElem (hplaces k hk)]
    rfl
  have hdistinct : (places.filterMap (startAt? es)).Nodup :=
    (h.pairwise_starts hchain).imp fun hlt => Int.ne_of_lt hlt
  have hsubset : places.filterMap (startAt? es) ⊆ (es.map (·.start)).dedup := by
    intro x hx
    obtain ⟨k, -, hk⟩ := List.mem_filterMap.1 hx
    obtain ⟨e, he, rfl⟩ := Option.map_eq_some_iff.1 hk
    rw [List.mem_dedup]
    exact List.mem_map_of_mem (List.mem_of_getElem? he)
  rw [← hstarts]
  exact (List.subperm_of_subset hdistinct hsubset).length_le

/-! ### Following links -/

/-- From the end of a chain no link leads further. -/
theorem follow_of_next_eq_none (h : es[i]?.bind (·.next) = none) (links : Nat) :
    follow es links i = i := by
  cases links with
  | zero => rfl
  | succ links => rw [follow, h]

/-- Links can be followed in two goes. -/
theorem follow_add (es : List Entry) (m n i : Nat) :
    follow es (m + n) i = follow es n (follow es m i) := by
  induction m generalizing i with
  | zero => rw [Nat.zero_add, follow]
  | succ m ih =>
    rw [Nat.succ_add, follow, follow]
    cases hnext : es[i]?.bind (·.next) with
    | none => exact (follow_of_next_eq_none hnext n).symm
    | some j => exact ih j

theorem Forward.reachesEnd (h : Forward es) (hi : i < es.length) :
    ReachesEnd es i (lastContinuation es i) :=
  have hspec := lastContinuation_spec h (List.getElem?_eq_getElem hi)
  ⟨hspec.1, hspec.2⟩

/-- **No bound above the number of entries makes a difference.** -/
theorem Forward.follow_of_length_le (h : Forward es) (hi : i < es.length)
    (hlinks : es.length ≤ n) : follow es n i = lastContinuation es i := by
  obtain ⟨e, he, hnext⟩ := (h.reachesEnd hi).last
  have hend : es[lastContinuation es i]?.bind (·.next) = none := by
    rw [he, Option.bind_some, hnext]
  obtain ⟨more, rfl⟩ := Nat.exists_eq_add_of_le hlinks
  rw [follow_add, ← lastContinuation, follow_of_next_eq_none hend]

/-! ### The moments of settling -/

/-- The entries of a comment after the first `n` pairs have been settled. -/
def entriesAfter (tags : TaskTags) (c : Source.Comment) (n : Nat) : List Entry :=
  ((indexPairs (entries tags c).length).take n).foldl (fun es (i, j) => relate es i j)
    (entries tags c)

/-- After the last pair the entries are the ones that are reported. -/
theorem settle_eq_entriesAfter (tags : TaskTags) (c : Source.Comment) :
    settle (entries tags c) = entriesAfter tags c (indexPairs (entries tags c).length).length := by
  rw [settle, entriesAfter, List.take_length]

/-- At every moment each link leads forward. -/
theorem forward_entriesAfter (tags : TaskTags) (c : Source.Comment) (n : Nat) :
    Forward (entriesAfter tags c n) := by
  have hfresh : ∀ e ∈ entries tags c, e.next = none := fun e he => (fresh_entries he).1
  exact (linked_foldl_relate hfresh _ fun _ hp => List.mem_of_mem_take hp).forward

/-- `entriesAfter` with all sums checked. -/
def entriesAfter? (tags : TaskTags) (c : Source.Comment) (n : Nat) : Option (List Entry) := do
  let found ← entries? tags c
  ((indexPairs found.length).take n).foldlM (fun es (i, j) => relate? es i j) found

theorem isChecked_entriesAfter (tags : TaskTags) (c : Source.Comment) (n : Nat) :
    IsChecked c.Fits (entriesAfter? tags c n) (entriesAfter tags c n) :=
  .bind (isChecked_entries tags c) ((isChecked_foldl_relate _ _).mono fits_entries)

/-- **Chains reach their end at every moment** of settling the entries of a comment, the last one
included, be the tags as they may. Each link leads to an entry that starts later. No chain has more
entries than there are different starts. What is asked for an entry is the end of its chain, and the
bound on the number of links makes no difference to that. The sums of offsets are checked at every
moment, and none takes more than 32 bits if the comment leaves room. -/
theorem chains_end (tags : TaskTags) (c : Source.Comment) :
    (∀ n, IsChecked c.Fits (entriesAfter? tags c n) (entriesAfter tags c n)) ∧
    (∀ n es, entriesAfter? tags c n = some es → Forward es ∧
      (∀ places : List Nat, places.IsChain (LinksTo es) → (∀ k ∈ places, k < es.length) →
        places.length ≤ (es.map (·.start)).dedup.length) ∧
      ∀ i < es.length, ReachesEnd es i (lastContinuation es i) ∧
        ∀ links, es.length ≤ links → follow es links i = lastContinuation es i) ∧
    settle (entries tags c) =
      entriesAfter tags c (indexPairs (entries tags c).length).length := by
  refine ⟨isChecked_entriesAfter tags c, fun n es hes => ?_, settle_eq_entriesAfter tags c⟩
  obtain rfl := (isChecked_entriesAfter tags c n).exact es hes
  have hforward := forward_entriesAfter tags c n
  exact ⟨hforward, fun _ hchain hplaces => hforward.length_le_of_isChain hchain hplaces,
    fun i hi => ⟨hforward.reachesEnd hi, fun _ hlinks => hforward.follow_of_length_le hi hlinks⟩⟩

/-- Tags of one letter, of which one is given twice. -/
def repeatedTags : TaskTags := { tags := ["A", "B", "B", "C"] }

/-- A comment with all of these tags, one byte apart. -/
def letters : Source.Comment where
  kind := .line
  text := "// A B C done"
  start := 100
  stop := 112
  firstLine := 1
  lastLine := 1

/-- A tag that is given twice has two entries at the same place. The first entry is linked to the
one and then to the other, and both of them to the third. So the end of its chain changes, and it is
always reached. -/
theorem chains_end_twice :
    (∀ n, Forward (entriesAfter repeatedTags letters n)) ∧
      [0, 2, 3].IsChain (LinksTo (entriesAfter repeatedTags letters 12)) ∧
      3 ≤ ((entriesAfter repeatedTags letters 12).map (·.start)).dedup.length ∧
      ReachesEnd (entriesAfter repeatedTags letters 1) 0 1 ∧
      ReachesEnd (entriesAfter repeatedTags letters 12) 0 3 ∧
      follow (entriesAfter repeatedTags letters 12) 40 0 = 3 := by
  obtain ⟨hchecked, hends, -⟩ := chains_end repeatedTags letters
  have hfits : letters.Fits := by decide +kernel
  have hmoments (n : Nat) := hends n _ ((hchecked n).succeeds hfits)
  obtain ⟨-, -, hends⟩ := hmoments 1
  obtain ⟨-, hbound, hends'⟩ := hmoments 12
  have hchain : [0, 2, 3].IsChain (LinksTo (entriesAfter repeatedTags letters 12)) := by
    decide +kernel
  have hplaces : ∀ k ∈ [0, 2, 3], k < (entriesAfter repeatedTags letters 12).length := by
    decide +kernel
  have hfirst : lastContinuation (entriesAfter repeatedTags letters 1) 0 = 1 := by decide +kernel
  have hlast : lastContinuation (entriesAfter repeatedTags letters 12) 0 = 3 := by decide +kernel
  obtain ⟨hend, -⟩ := hends 0 (by decide +kernel)
  obtain ⟨hend', hmore⟩ := hends' 0 (by decide +kernel)
  refine ⟨fun n => (hmoments n).1, hchain, hbound _ hchain hplaces, hfirst ▸ hend, hlast ▸ hend',
    ?_⟩
  rw [hmore 40 (by decide +kernel), hlast]

end HostBridge.Task
