import HostBridge.Proofs.Declaration.CallForms
import HostBridge.Proofs.Places
import Mathlib.Data.List.Chain

/-!
# The arities of a method

From one list of arguments to the next the latest argument that still has a default value is
dropped, until none is left: `Dropping` says so step by step, and the variants of a method are what
this leads to and nothing else is, `dropping_iff`. So each list is a part of the one before it.

The same can be had without taking the list apart. A mask tells which arguments are left, and each
pass over the list crosses out the last of those with default values, `passes`. A pass is a step of
`Dropping` for the arguments that are left, so the passes lead to the same lists, `passes_eq`.

Which arguments are gone after `k` steps does not depend on how the default values are spread: those
at the last `k` places of parameters with default values, `variants_closedForm`.
-/

namespace HostBridge

section Dropping

variable {α : Type} {p : α → Bool} {xs : List α} {lists : List (List α)}

/-! ### Step by step -/

/-- **Dropping the latest element** that satisfies a predicate, again and again. -/
inductive Dropping (p : α → Bool) : List α → List (List α) → Prop
  | stop {xs : List α} (h : ∀ x ∈ xs, p x = false) : Dropping p xs [xs]
  | drop (before : List α) {x : α} {after : List α} {lists : List (List α)} (hx : p x = true)
      (hafter : ∀ y ∈ after, p y = false) (h : Dropping p (before ++ after) lists) :
      Dropping p (before ++ x :: after) ((before ++ x :: after) :: lists)

namespace Dropping

theorem head? (h : Dropping p xs lists) : lists.head? = some xs := by
  cases h <;> rfl

/-- An element in front is dropped last, if at all. -/
theorem cons (h : Dropping p xs lists) (x : α) :
    Dropping p (x :: xs)
      (lists.map (x :: ·) ++ if p x then [xs.filter fun y => !p y] else []) := by
  induction h with
  | @stop xs hnone =>
    have hfilter : xs.filter (fun y => !p y) = xs :=
      List.filter_eq_self.2 fun y hy => by simp [hnone y hy]
    cases hx : p x with
    | true =>
      rw [if_pos rfl, hfilter]
      exact drop [] hx hnone (stop hnone)
    | false => exact stop (List.forall_mem_cons.2 ⟨hx, hnone⟩)
  | @drop before y after lists hy hafter _ ih =>
    have hfilter : (before ++ y :: after).filter (fun z => !p z) =
        (before ++ after).filter fun z => !p z := by simp [hy]
    rw [hfilter]
    exact drop (x :: before) hy hafter ih

/-- Each list is a part of the one before it. -/
theorem isChain (h : Dropping p xs lists) :
    lists.IsChain fun longer shorter => shorter.Sublist longer := by
  induction h with
  | stop => exact .singleton _
  | @drop before x after lists _ _ h ih =>
    refine List.isChain_cons.2 ⟨fun shorter hshorter => ?_, ih⟩
    obtain rfl := Option.some.inj (h.head?.symm.trans hshorter)
    exact (List.Sublist.refl before).append (List.sublist_cons_self x after)

end Dropping

theorem dropping_droppingLast (p : α → Bool) (xs : List α) : Dropping p xs (droppingLast p xs) := by
  induction xs with
  | nil => exact .stop (by simp)
  | cons x xs ih => exact ih.cons x

theorem droppingLast_of_forall (h : ∀ x ∈ xs, p x = false) : droppingLast p xs = [xs] := by
  induction xs with
  | nil => rfl
  | cons x xs ih =>
    obtain ⟨hx, hxs⟩ := List.forall_mem_cons.1 h
    rw [droppingLast, ih hxs, hx]
    rfl

theorem droppingLast_drop (before : List α) {x : α} {after : List α} (hx : p x = true)
    (hafter : ∀ y ∈ after, p y = false) :
    droppingLast p (before ++ x :: after) =
      (before ++ x :: after) :: droppingLast p (before ++ after) := by
  induction before with
  | nil =>
    have hfilter : after.filter (fun y => !p y) = after :=
      List.filter_eq_self.2 fun y hy => by simp [hafter y hy]
    rw [List.nil_append, droppingLast, droppingLast_of_forall hafter, if_pos hx, hfilter,
      List.nil_append, droppingLast_of_forall hafter]
    rfl
  | cons y before ih =>
    have hfilter : (before ++ x :: after).filter (fun z => !p z) =
        (before ++ after).filter fun z => !p z := by simp [hx]
    rw [List.cons_append, droppingLast, ih, hfilter]
    rfl

/-- Nothing else can be had by dropping step by step. -/
theorem dropping_iff : Dropping p xs lists ↔ lists = droppingLast p xs := by
  constructor
  · intro h
    induction h with
    | stop hnone => exact (droppingLast_of_forall hnone).symm
    | drop before hx hafter _ ih => rw [droppingLast_drop before hx hafter, ih]
  · rintro rfl
    exact dropping_droppingLast p xs

/-! ### Crossing out -/

section Mask

variable {mask : List Bool} {i : Nat}

/-- The elements that a mask leaves. -/
def unmasked (mask : List Bool) (xs : List α) : List α :=
  ((mask.zip xs).filter (·.1)).map (·.2)

/-- The place of the last of these elements that satisfies a predicate. -/
def lastUnmasked? (p : α → Bool) (mask : List Bool) (xs : List α) : Option Nat :=
  ((mask.zip xs).findIdxs fun x => x.1 && p x.2).getLast?

theorem unmasked_replicate {n : Nat} (h : xs.length ≤ n) :
    unmasked (List.replicate n true) xs = xs := by
  induction xs generalizing n with
  | nil => simp [unmasked]
  | cons x xs ih =>
    obtain ⟨n, rfl⟩ := Nat.exists_eq_add_one_of_ne_zero (Nat.ne_zero_of_lt h)
    exact congrArg (x :: ·) (ih (Nat.le_of_succ_le_succ h))

theorem zip_set_of_split {before after : List (Bool × α)} {b : Bool} {x : α}
    (h : mask.zip xs = before ++ (b, x) :: after) (c : Bool) :
    (mask.set before.length c).zip xs = before ++ (c, x) :: after := by
  induction before generalizing mask xs with
  | nil => cases mask <;> cases xs <;> simp_all
  | cons y before ih => cases mask <;> cases xs <;> simp_all

/-- What one pass does: it crosses out the last element that satisfies the predicate. -/
theorem unmasked_set (h : lastUnmasked? p mask xs = some i) :
    ∃ before x after, unmasked mask xs = before ++ x :: after ∧ p x = true ∧
      (∀ y ∈ after, p y = false) ∧ unmasked (mask.set i false) xs = before ++ after := by
  obtain ⟨before, ⟨b, x⟩, after, hsplit, rfl, hx, hafter⟩ := split_of_getLast?_findIdxs h
  obtain ⟨rfl, hp⟩ := Bool.and_eq_true_iff.1 hx
  refine ⟨(before.filter (·.1)).map (·.2), x, (after.filter (·.1)).map (·.2), ?_, hp, ?_, ?_⟩
  · simp [unmasked, hsplit]
  · intro y hy
    simp at hy
    simpa using hafter _ hy
  · simp [unmasked, zip_set_of_split hsplit]

theorem eq_false_of_lastUnmasked? (h : lastUnmasked? p mask xs = none) :
    ∀ x ∈ unmasked mask xs, p x = false := by
  intro x hx
  rw [lastUnmasked?, List.getLast?_eq_none_iff, List.findIdxs_eq_nil_iff] at h
  simp [unmasked] at hx
  simpa using h _ hx

/-- The lists that a mask leaves pass after pass, until there is nothing more to cross out. -/
def passes (p : α → Bool) (mask : List Bool) (xs : List α) : List (List α) :=
  match _h : lastUnmasked? p mask xs with
  | some i => unmasked mask xs :: passes p (mask.set i false) xs
  | none => [unmasked mask xs]
termination_by (unmasked mask xs).length
decreasing_by
  -- what is crossed out is an element that was left so far
  obtain ⟨before, x, after, hbefore, -, -, hafter⟩ := unmasked_set ‹_›
  simp [hbefore, hafter]

/-- Each pass is a step of dropping. -/
theorem dropping_passes (p : α → Bool) (mask : List Bool) (xs : List α) :
    Dropping p (unmasked mask xs) (passes p mask xs) := by
  fun_induction passes p mask xs with
  | case1 mask i h ih =>
    obtain ⟨before, x, after, hbefore, hx, hafter, hset⟩ := unmasked_set h
    rw [hset] at ih
    rw [hbefore]
    exact .drop before hx hafter ih
  | case2 mask h => exact .stop (eq_false_of_lastUnmasked? h)

/-- **Crossing out** leads to the same lists as dropping. -/
theorem passes_eq (p : α → Bool) {n : Nat} (h : xs.length ≤ n) :
    passes p (List.replicate n true) xs = droppingLast p xs := by
  have hpasses := dropping_passes p (List.replicate n true) xs
  rw [unmasked_replicate h] at hpasses
  exact dropping_iff.1 hpasses

end Mask

/-! ### What is gone after some steps -/

theorem rtake_cons (x : α) (xs : List α) (k : Nat) :
    (x :: xs).rtake k = if xs.length < k then x :: xs else xs.rtake k := by
  rw [List.rtake, List.rtake, List.length_cons]
  split
  · next hlt => rw [Nat.sub_eq_zero_of_le hlt, List.drop_zero]
  · next hle => rw [Nat.succ_sub (Nat.not_lt.1 hle), List.drop_succ_cons]

theorem rtake_map {β : Type} (f : α → β) (xs : List α) (k : Nat) :
    (xs.map f).rtake k = (xs.rtake k).map f := by
  rw [List.rtake, List.rtake, List.length_map, List.map_drop]

/-- The last `k` elements of a kind are those at the last `k` places of the kind. -/
theorem withoutLast_eq (p : α → Bool) (k : Nat) (xs : List α) :
    withoutLast p k xs = withoutPlaces ((xs.findIdxs p).rtake k) xs := by
  induction xs with
  | nil => rfl
  | cons x xs ih =>
    rw [withoutLast, findIdxs_cons_shift, ih]
    cases hx : p x with
    | false => rw [if_neg (by simp), if_neg (by simp), rtake_map, withoutPlaces_shift]
    | true =>
      rw [if_pos rfl, rtake_cons, List.length_map, List.length_findIdxs]
      by_cases hlt : xs.countP p < k
      · -- all places are among the last ones, this one included
        have hall : (xs.findIdxs p).rtake k = xs.findIdxs p := by
          rw [List.rtake, List.length_findIdxs, Nat.sub_eq_zero_of_le (Nat.le_of_lt hlt),
            List.drop_zero]
        rw [if_pos ⟨rfl, hlt⟩, if_pos hlt, withoutPlaces_zero_cons, hall]
      · rw [if_neg (fun h => hlt h.2), if_neg hlt, rtake_map, withoutPlaces_shift]

end Dropping

/-! ### Variants -/

section Variants

variable {parameters : List Source.Parameter} {arguments : List Argument}

/-- The arguments are left out by the places of their parameters. -/
theorem map_snd_withoutLast_zip (h : arguments.length = parameters.length) (k : Nat) :
    (withoutLast (fun pa => pa.1.hasDefault) k (parameters.zip arguments)).map (·.2) =
      withoutPlaces ((parameters.findIdxs (·.hasDefault)).rtake k) arguments := by
  have hplaces : (parameters.zip arguments).findIdxs (fun pa => pa.1.hasDefault) =
      parameters.findIdxs (·.hasDefault) := by
    calc (parameters.zip arguments).findIdxs (fun pa => pa.1.hasDefault)
        = ((parameters.zip arguments).map Prod.fst).findIdxs (·.hasDefault) := by
          rw [List.findIdxs_map]; rfl
      _ = parameters.findIdxs (·.hasDefault) := by
          rw [List.map_fst_zip (Nat.le_of_eq h.symm)]
  rw [withoutLast_eq, hplaces, ← withoutPlaces_map, List.map_snd_zip (Nat.le_of_eq h)]

/-- The variants of a method, computed with a mask that tells which parameters are left. -/
def maskedVariants (parameters : List Source.Parameter) (arguments : List Argument) :
    List (List Argument) :=
  (passes (fun pa => pa.1.hasDefault) (List.replicate parameters.length true)
    (parameters.zip arguments)).map fun v => v.map (·.2)

theorem maskedVariants_eq (parameters : List Source.Parameter) (arguments : List Argument) :
    maskedVariants parameters arguments = variants parameters arguments := by
  have hle : (parameters.zip arguments).length ≤ parameters.length :=
    List.length_zip ▸ Nat.min_le_left _ _
  rw [maskedVariants, passes_eq _ hle, variants]

/-- **The variants of a method**: the arguments without those of the last `k` parameters that have
default values, for each `k`, and this is what crossing out leaves. So there is one variant for each
number of arguments from the least to all of them, and the shortest one has the arguments without
default values. -/
theorem variants_closedForm (h : arguments.length = parameters.length) :
    let defaults := parameters.countP (·.hasDefault)
    maskedVariants parameters arguments = variants parameters arguments ∧
      variants parameters arguments =
        (List.range (defaults + 1)).map (fun k =>
          withoutPlaces ((parameters.findIdxs (·.hasDefault)).rtake k) arguments) ∧
      defaults ≤ arguments.length ∧
      (variants parameters arguments).map List.length =
        (List.range (defaults + 1)).map (arguments.length - ·) ∧
      (variants parameters arguments).IsChain (fun longer shorter => shorter.Sublist longer) ∧
      (variants parameters arguments).getLast? =
        some (((parameters.zip arguments).filter fun pa => !pa.1.hasDefault).map (·.2)) := by
  intro defaults
  refine ⟨maskedVariants_eq parameters arguments, ?_, ?_, ?_, ?_, ?_⟩
  · rw [variants_eq_withoutLast h]
    exact List.map_congr_left fun k _ => map_snd_withoutLast_zip h k
  · exact h ▸ List.countP_le_length
  · rw [variants_eq_withoutLast h, List.map_map]
    refine List.map_congr_left fun k hk => ?_
    have hlength := length_withoutLast_zip h (Nat.lt_succ_iff.1 (List.mem_range.1 hk))
    rw [Function.comp_apply, ← hlength, Nat.add_sub_cancel]
  · rw [variants, List.isChain_map]
    exact (dropping_droppingLast _ _).isChain.imp fun _ _ hpart => hpart.map _
  · rw [variants, List.getLast?_map, getLast_droppingLast, Option.map_some]

/-- Parameters of which the first and the last one have default values. -/
def gapped : List Source.Parameter :=
  [(Source.Parameter.plain "a" .object 0 0).defaulted, .plain "b" .object 0 0,
    (Source.Parameter.plain "c" .object 0 0).defaulted]

/-- An argument for each of them. -/
def gappedArguments : List Argument :=
  ["a", "b", "c"].map fun name => { (default : Argument) with name }

/-- The last argument is dropped before the first one, and the one between them is never dropped. -/
theorem variants_closedForm_gapped :
    gappedArguments.length = gapped.length ∧
      (variants gapped gappedArguments).map (fun variant => variant.map (·.name)) =
        [["a", "b", "c"], ["a", "b"], ["b"]] ∧
      (variants gapped gappedArguments).map List.length = [3, 2, 1] := by
  have h : gappedArguments.length = gapped.length := rfl
  obtain ⟨-, hvariants, -, hlengths, -⟩ := variants_closedForm h
  refine ⟨h, ?_, hlengths.trans rfl⟩
  rw [hvariants]
  rfl

end Variants

end HostBridge
