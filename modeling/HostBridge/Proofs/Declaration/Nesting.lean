import HostBridge.Declaration.Tree
import Mathlib.Data.List.Nodup
import Mathlib.Logic.Relation

/-!
# Nestings

Types are built one after the other, so each of them has a *place*: the number of those built before
it. A `Nesting` tells for each place which earlier place owns it, if any. It determines a forest of
declarations, `Nesting.forest`: the members of an owner in the order of their places, each with its
own members.

A nesting says nothing about addresses. `Nesting.Leads` ties the two together: it holds of a path of
indices that leads from the members of one place to those of another. Main statements:

* `Nesting.attach_forest` — attaching one more declaration at the address of its owner gives the
  forest of one more place;
* `Nesting.walk_perm_range` — walking the forest depth first visits each place exactly once;
* `Nesting.walkAll_forest` — and the types of the forest are those of the places visited.

Both rest on the same fact, `Nesting.Climbs.eq_of_owner_eq`: two places with the same owner have
nothing below them in common.
-/

namespace HostBridge

open Relation (ReflTransGen)

/-- How places are nested. -/
structure Nesting where
  owner : Nat → Option Nat
  /-- An owner comes before what it owns. -/
  owner_lt : ∀ {i j : Nat}, owner i = some j → j < i

namespace Nesting

variable (N : Nesting) {n i j k : Nat} {p q : Option Nat}

/-! ### Members -/

/-- Those of the first `n` places that `p` owns, in order. -/
def members (n : Nat) (p : Option Nat) : List Nat := (List.range n).filter fun i => N.owner i = p

@[simp] theorem mem_members : i ∈ N.members n p ↔ i < n ∧ N.owner i = p := by
  simp [members]

theorem nodup_members (n : Nat) (p : Option Nat) : (N.members n p).Nodup :=
  List.nodup_range.filter _

theorem members_succ (n : Nat) (p : Option Nat) :
    N.members (n + 1) p = N.members n p ++ if N.owner n = p then [n] else [] := by
  by_cases h : N.owner n = p <;> simp [members, List.range_succ, h]

theorem members_succ_of_ne (h : N.owner n ≠ p) : N.members (n + 1) p = N.members n p := by
  rw [members_succ, if_neg h, List.append_nil]

/-- The last place owns nothing yet. -/
theorem members_succ_self (n : Nat) : N.members (n + 1) (some n) = [] := by
  refine List.eq_nil_iff_forall_not_mem.2 fun i hi => ?_
  obtain ⟨hlt, howner⟩ := (N.mem_members).1 hi
  have := N.owner_lt howner
  omega

/-- What is left to descend gets less from an owner to its members. -/
theorem sub_lt_of_mem_members (h : i ∈ N.members n p) : n - (i + 1) < n - p.elim 0 (· + 1) := by
  obtain ⟨hlt, howner⟩ := (N.mem_members).1 h
  cases p with
  | none =>
    simp only [Option.elim_none]
    omega
  | some j =>
    have := N.owner_lt howner
    simp only [Option.elim_some]
    omega

/-- Descending from owners to members comes to an end: the members of a place come after it. -/
theorem members_induction (n : Nat) {motive : Option Nat → Prop}
    (step : ∀ p, (∀ i ∈ N.members n p, motive (some i)) → motive p) (p : Option Nat) :
    motive p := by
  -- the places after an owner get fewer from each owner to the next
  have below : ∀ d p, n - p.elim 0 (· + 1) = d → motive p := by
    intro d
    induction d using Nat.strongRecOn with
    | ind d ih =>
      rintro p rfl
      exact step p fun i hi => ih _ (N.sub_lt_of_mem_members hi) (some i) rfl
  exact below _ p rfl

/-! ### Climbing from a place to its owners -/

/-- Going from `i` to its owner and on to the owner of that one, any number of times, one comes to
`j`. -/
def Climbs (i j : Nat) : Prop := ReflTransGen (fun a b => N.owner a = some b) i j

variable {N}

theorem Climbs.refl (i : Nat) : N.Climbs i i := ReflTransGen.refl

theorem Climbs.tail (h : N.Climbs i j) (howner : N.owner j = some k) : N.Climbs i k :=
  ReflTransGen.tail h howner

theorem Climbs.le (h : N.Climbs i j) : j ≤ i := by
  induction h with
  | refl => exact Nat.le_refl i
  | tail _ howner ih =>
    have := N.owner_lt howner
    omega

/-- Climbing from a place to another one passes its owner. -/
theorem Climbs.eq_or_owner (h : N.Climbs i j) : i = j ∨ ∃ k, N.owner i = some k ∧ N.Climbs k j :=
  (ReflTransGen.cases_head h).imp id fun ⟨k, howner, h⟩ => ⟨k, howner, h⟩

/-- A place does not climb to another one with the same owner. -/
private theorem Climbs.eq_of_owner_eq_self (h : N.Climbs j k) (howner : N.owner j = N.owner k) :
    j = k := by
  rcases h.eq_or_owner with h | ⟨l, hl, h⟩
  · exact h
  · -- the common owner would come both before and not before `k`
    have hlt := N.owner_lt (howner.symm.trans hl)
    have hle := h.le
    omega

/-- **Siblings have nothing below them in common.** -/
theorem Climbs.eq_of_owner_eq (hj : N.Climbs i j) (hk : N.Climbs i k)
    (howner : N.owner j = N.owner k) : j = k := by
  have unique : Relator.RightUnique fun a b => N.owner a = some b := by
    intro a b c hb hc
    exact Option.some.inj (hb.symm.trans hc)
  -- the places above `i` form a chain, so one of the two is above the other
  rcases ReflTransGen.total_of_right_unique unique hj hk with h | h
  · exact Climbs.eq_of_owner_eq_self h howner
  · exact (Climbs.eq_of_owner_eq_self h howner.symm).symm

/-! ### Paths -/

variable (N)

/-- Following the path from the members of `p` one comes to the members of `q`: each index chooses
one of the members at hand. -/
def Leads (n : Nat) (p : Option Nat) : List Nat → Option Nat → Prop
  | [], q => p = q
  | k :: path, q => ∃ i, (N.members n p)[k]? = some i ∧ Leads n (some i) path q

variable {N} {path : List Nat}

/-- A path leads down. -/
theorem Leads.climbs (h : N.Leads n (some j) path q) : ∃ i, q = some i ∧ N.Climbs i j := by
  induction path generalizing j with
  | nil => exact ⟨j, Eq.symm h, Climbs.refl j⟩
  | cons k path ih =>
    obtain ⟨i, hi, h⟩ := h
    obtain ⟨l, rfl, hl⟩ := ih h
    exact ⟨l, rfl, hl.tail ((N.mem_members).1 (List.mem_of_getElem? hi)).2⟩

/-- One more place leaves the paths between the others as they are. -/
theorem Leads.succ (h : N.Leads n p path q) : N.Leads (n + 1) p path q := by
  induction path generalizing p with
  | nil => exact h
  | cons k path ih =>
    obtain ⟨i, hi, h⟩ := h
    refine ⟨i, ?_, ih h⟩
    rw [members_succ, List.getElem?_append_left (List.getElem?_eq_some_iff.1 hi).1]
    exact hi

theorem Leads.snoc (h : N.Leads n p path q) (hk : (N.members n q)[k]? = some i) :
    N.Leads n p (path ++ [k]) (some i) := by
  induction path generalizing p with
  | nil =>
    obtain rfl : p = q := h
    exact ⟨i, hk, rfl⟩
  | cons l path ih =>
    obtain ⟨j, hj, h⟩ := h
    exact ⟨j, hj, ih h⟩

/-- The path to a new place. -/
theorem Leads.new (h : N.Leads n p path (N.owner n)) :
    N.Leads (n + 1) p (path ++ [(N.members n (N.owner n)).length]) (some n) := by
  refine h.succ.snoc ?_
  rw [members_succ, if_pos rfl, List.getElem?_append_right (Nat.le_refl _), Nat.sub_self]
  rfl

/-! ### The forest -/

section Forest

variable (N) (content : Nat → TypeContent) (binding : Nat → Option TypeBinding)

/-- The declarations of the members of `p` among the first `n` places, each with its own members. -/
def forest (n : Nat) (p : Option Nat) : List TypeDeclaration :=
  (N.members n p).attach.map fun ⟨i, _⟩ => ⟨content i, forest n (some i), binding i⟩
termination_by n - p.elim 0 (· + 1)
decreasing_by exact sub_lt_of_mem_members _ ‹_›

/-- The declaration of a place. -/
def declaration (n i : Nat) : TypeDeclaration :=
    ⟨content i, N.forest content binding n (some i), binding i⟩

theorem forest_eq (n : Nat) (p : Option Nat) :
    N.forest content binding n p = (N.members n p).map (N.declaration content binding n) := by
  rw [forest]
  exact List.attach_map_val (f := N.declaration content binding n)

@[simp] theorem forest_zero (p : Option Nat) : N.forest content binding 0 p = [] := by
  simp [forest_eq, members]

variable {N} {content binding}

/-- A new place changes the forest only below the places that it climbs to. -/
theorem forest_succ_of_not_climbs (h : ∀ l, N.owner n = some l → ¬ N.Climbs l j) :
    N.forest content binding (n + 1) (some j) = N.forest content binding n (some j) := by
  have key : ∀ p, (∀ j, p = some j → ∀ l, N.owner n = some l → ¬ N.Climbs l j) → p ≠ none →
      N.forest content binding (n + 1) p = N.forest content binding n p := by
    refine N.members_induction n fun p ih hclimbs hp => ?_
    have hne : N.owner n ≠ p := by
      intro howner
      obtain ⟨j, rfl⟩ := Option.ne_none_iff_exists'.1 hp
      exact hclimbs j rfl j howner (Climbs.refl j)
    rw [forest_eq, forest_eq, members_succ_of_ne N hne]
    refine List.map_congr_left fun i hi => ?_
    have hi' : ∀ l, N.owner n = some l → ¬ N.Climbs l i := by
      intro l hl hclimb
      obtain ⟨j, rfl⟩ := Option.ne_none_iff_exists'.1 hp
      exact hclimbs j rfl l hl (hclimb.tail ((N.mem_members).1 hi).2)
    have := ih i hi (fun j hj => by cases hj; exact hi') (by simp)
    rw [declaration, declaration, this]
  exact key (some j) (fun i hi => by cases hi; exact h) (by simp)

/-- The new declaration itself. -/
theorem declaration_succ_self (n : Nat) :
    N.declaration content binding (n + 1) n = ⟨content n, [], binding n⟩ := by
  rw [declaration, forest_eq, members_succ_self, List.map_nil]

/-- The forest below the owner of the new place has one more declaration at its end. -/
theorem forest_succ_owner (n : Nat) :
    N.forest content binding (n + 1) (N.owner n) =
      N.forest content binding n (N.owner n) ++ [⟨content n, [], binding n⟩] := by
  rw [forest_eq, members_succ, if_pos rfl, List.map_append, List.map_singleton,
    declaration_succ_self, forest_eq]
  congr 1
  refine List.map_congr_left fun i hi => ?_
  -- the owner of the new place owns `i` as well, so it does not climb to `i`
  rw [declaration, declaration, forest_succ_of_not_climbs]
  intro l hl hclimb
  have hlt := N.owner_lt (((N.mem_members).1 hi).2.trans hl)
  have hle := hclimb.le
  omega

/-- Away from the owner of the new place, the declaration on the way to it is the only one that
changes. -/
theorem forest_succ_of_climbs {l : Nat} (hk : (N.members n p)[k]? = some i)
    (hl : N.owner n = some l)
    (hclimb : N.Climbs l i) :
    N.forest content binding (n + 1) p =
      (N.forest content binding n p).set k (N.declaration content binding (n + 1) i) := by
  have howner : N.owner i = p := ((N.mem_members).1 (List.mem_of_getElem? hk)).2
  have hne : N.owner n ≠ p := by
    intro h
    have hlt := N.owner_lt (howner.trans (h.symm.trans hl))
    have hle := hclimb.le
    omega
  rw [forest_eq, forest_eq, members_succ_of_ne N hne]
  refine List.ext_getElem? fun k' => ?_
  rw [List.getElem?_map, List.getElem?_set, List.length_map, List.getElem?_map]
  by_cases hkk : k = k'
  · -- the declaration on the way to the new place
    subst hkk
    rw [hk, if_pos rfl, if_pos (List.getElem?_eq_some_iff.1 hk).1, Option.map_some]
  · rw [if_neg hkk]
    cases hi' : (N.members n p)[k']? with
    | none => rfl
    | some i' =>
      have howner' : N.owner i' = p := ((N.mem_members).1 (List.mem_of_getElem? hi')).2
      -- siblings of that declaration do not lie on the way
      have hii : i ≠ i' := by
        rintro rfl
        have hlt := (List.getElem?_eq_some_iff.1 hk).1
        exact hkk ((List.getElem?_inj hlt (N.nodup_members n p)).1 (hk.trans hi'.symm))
      rw [Option.map_some, Option.map_some, declaration, declaration, forest_succ_of_not_climbs]
      intro l' hl' hclimb'
      obtain rfl := Option.some.inj (hl.symm.trans hl')
      exact hii (hclimb.eq_of_owner_eq hclimb' (howner.trans howner'.symm))

/-- **Attaching a declaration at the address of its owner.** The path leads from the members of `p`
to those of the owner of the new place. -/
theorem attach_forest (h : N.Leads n p path (N.owner n)) :
    attach (N.forest content (fun _ => none) n p) path (.leaf (content n)) =
      some (N.forest content (fun _ => none) (n + 1) p,
        path ++ [(N.members n (N.owner n)).length]) := by
  induction path generalizing p with
  | nil =>
    -- the path has led to the owner
    obtain rfl : p = N.owner n := h
    rw [attach, forest_succ_owner, forest_eq, List.length_map]
    rfl
  | cons k path ih =>
    -- the rest of the path leads from the chosen member to the owner, so the owner climbs to it
    obtain ⟨i, hi, h⟩ := h
    obtain ⟨l, hl, hclimb⟩ := h.climbs
    have hk : (N.forest content (fun _ => none) n p)[k]? =
        some (N.declaration content (fun _ => none) n i) := by
      rw [forest_eq, List.getElem?_map, hi, Option.map_some]
    rw [attach, hk]
    simp only [declaration]
    rw [ih h, forest_succ_of_climbs hi hl hclimb]
    rfl

end Forest

/-! ### Walking the forest -/

variable (N)

/-- The places below `p`, depth first, each before those below it. -/
def walk (n : Nat) (p : Option Nat) : List Nat :=
  ((N.members n p).attach.map fun ⟨i, _⟩ => i :: walk n (some i)).flatten
termination_by n - p.elim 0 (· + 1)
decreasing_by exact sub_lt_of_mem_members _ ‹_›

theorem walk_eq (n : Nat) (p : Option Nat) :
    N.walk n p = (N.members n p).flatMap fun i => i :: N.walk n (some i) := by
  rw [walk, List.flatMap_def]
  exact congrArg List.flatten (List.attach_map_val (f := fun i => i :: N.walk n (some i)))

variable {N}

theorem mem_walk_iff : j ∈ N.walk n p ↔ ∃ i ∈ N.members n p, j = i ∨ j ∈ N.walk n (some i) := by
  rw [walk_eq]
  simp only [List.mem_flatMap, List.mem_cons]

/-- Every place below `p` climbs to a member of `p`. -/
theorem climbs_of_mem_walk : ∀ p, ∀ j ∈ N.walk n p, j < n ∧ ∃ i ∈ N.members n p, N.Climbs j i := by
  refine N.members_induction n fun p ih j hj => ?_
  obtain ⟨i, hi, rfl | hj⟩ := mem_walk_iff.1 hj
  · exact ⟨((N.mem_members).1 hi).1, j, hi, Climbs.refl j⟩
  · obtain ⟨hlt, k, hk, hclimb⟩ := ih i hi j hj
    exact ⟨hlt, i, hi, hclimb.tail ((N.mem_members).1 hk).2⟩

theorem walk_trans : ∀ p, j ∈ N.walk n p → i ∈ N.walk n (some j) → i ∈ N.walk n p := by
  refine N.members_induction n fun p ih hj hi => ?_
  obtain ⟨k, hk, rfl | hj⟩ := mem_walk_iff.1 hj
  · exact mem_walk_iff.2 ⟨j, hk, Or.inr hi⟩
  · exact mem_walk_iff.2 ⟨k, hk, Or.inr (ih k hk hj hi)⟩

/-- Every place is visited. -/
theorem mem_walk_none (h : i < n) : i ∈ N.walk n none := by
  induction i using Nat.strongRecOn with
  | ind i ih =>
    -- a place is visited right below its owner, and the owner is visited by induction
    have hself : i ∈ N.walk n (N.owner i) :=
      mem_walk_iff.2 ⟨i, (N.mem_members).2 ⟨h, rfl⟩, Or.inl rfl⟩
    cases howner : N.owner i with
    | none => exact howner ▸ hself
    | some j =>
      have hlt := N.owner_lt howner
      exact walk_trans none (ih j hlt (by omega)) (howner ▸ hself)

theorem nodup_walk : ∀ p, (N.walk n p).Nodup := by
  refine N.members_induction n fun p ih => ?_
  rw [walk_eq, List.nodup_flatMap]
  constructor
  · intro i hi
    refine List.nodup_cons.2 ⟨fun hmem => ?_, ih i hi⟩
    -- what lies below `i` climbs to a member of `i`, which comes after `i`
    obtain ⟨-, k, hk, hclimb⟩ := climbs_of_mem_walk _ i hmem
    have hlt := N.owner_lt ((N.mem_members).1 hk).2
    have hle := hclimb.le
    omega
  · -- two members have nothing below them in common
    have climbs : ∀ i j, j ∈ i :: N.walk n (some i) → N.Climbs j i := by
      intro i j hj
      rcases List.mem_cons.1 hj with rfl | hj
      · exact Climbs.refl j
      · obtain ⟨-, k, hk, hclimb⟩ := climbs_of_mem_walk _ j hj
        exact hclimb.tail ((N.mem_members).1 hk).2
    refine (N.nodup_members n p).pairwise_of_forall_ne fun i hi j hj hne => ?_
    show List.Disjoint (i :: N.walk n (some i)) (j :: N.walk n (some j))
    rw [List.disjoint_left]
    intro k hki hkj
    have howner : N.owner i = N.owner j :=
      ((N.mem_members).1 hi).2.trans ((N.mem_members).1 hj).2.symm
    exact hne ((climbs i k hki).eq_of_owner_eq (climbs j k hkj) howner)

/-- **Each place is visited exactly once.** -/
theorem walk_perm_range (N : Nesting) (n : Nat) : (N.walk n none).Perm (List.range n) := by
  refine (List.perm_ext_iff_of_nodup (nodup_walk none) List.nodup_range).2 fun i => ?_
  rw [List.mem_range]
  exact ⟨fun h => (climbs_of_mem_walk _ i h).1, mem_walk_none⟩

end Nesting

/-! ### The types of a forest -/

namespace TypeDeclaration

theorem walk_eq (t : TypeDeclaration) : t.walk = t :: walkAll t.memberTypes := by
  cases t
  rw [walk]

theorem walkAll_eq_flatMap (ts : List TypeDeclaration) : walkAll ts = ts.flatMap walk := by
  induction ts with
  | nil => rw [walkAll, List.flatMap_nil]
  | cons t ts ih => rw [walkAll, List.flatMap_cons, ih]

end TypeDeclaration

/-- Walking the forest depth first, one finds the declarations of the places in the order of their
walk. -/
theorem Nesting.walkAll_forest (N : Nesting) (content : Nat → TypeContent)
    (binding : Nat → Option TypeBinding) (n : Nat) :
    ∀ p, TypeDeclaration.walkAll (N.forest content binding n p) =
      (N.walk n p).map (N.declaration content binding n) := by
  refine N.members_induction n fun p ih => ?_
  rw [TypeDeclaration.walkAll_eq_flatMap, forest_eq, walk_eq, List.flatMap_map, List.map_flatMap]
  refine List.flatMap_congr fun i hi => ?_
  rw [TypeDeclaration.walk_eq, List.map_cons]
  exact congrArg _ (ih i hi)

end HostBridge
