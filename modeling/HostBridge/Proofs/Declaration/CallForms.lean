import HostBridge.Declaration.Overload

/-!
# The ways to call a method

A method with default values is declared once for each way to call it: with all its arguments,
without the last one that has a default value, without the last two of them, and so on. This file
gives the closed form of these declarations, `MethodDeclaration.callForms`, and says what adding
them to a list of declarations comes to.

* `droppingLast_eq` — the lists that are left when elements are dropped one after the other are
  those without the last `k` of these elements, for each `k`.
* `MethodDeclaration.callForms_pairwise` — the ways to call a method differ in the number of
  arguments, so no two of them clash.
* `addWithVariants_eq` — since they do not clash among themselves, each of them is judged by the
  declarations that were there before the method: what the method adds is `contribution`, which
  looks at nothing else.
-/

namespace HostBridge

/-! ### Dropping the last elements of a kind -/

section Dropping

variable {α : Type} {p : α → Bool} {k : Nat} {xs : List α}

/-- The list without the last `k` elements that satisfy `p`. -/
def withoutLast (p : α → Bool) (k : Nat) : List α → List α
  | [] => []
  | x :: xs => if p x ∧ xs.countP p < k then withoutLast p k xs else x :: withoutLast p k xs

@[simp] theorem withoutLast_zero (p : α → Bool) (xs : List α) : withoutLast p 0 xs = xs := by
  induction xs with
  | nil => rfl
  | cons x xs ih => simp [withoutLast, ih]

/-- Without all elements that satisfy `p` there remain those that do not. -/
theorem withoutLast_of_countP_le (h : xs.countP p ≤ k) :
    withoutLast p k xs = xs.filter fun x => !p x := by
  induction xs with
  | nil => rfl
  | cons x xs ih =>
    rw [List.countP_cons] at h
    rw [withoutLast, ih (by omega)]
    cases hx : p x with
    | true =>
      rw [hx, if_pos rfl] at h
      rw [if_pos ⟨rfl, by omega⟩, List.filter_cons_of_neg (by simp [hx])]
    | false => rw [if_neg (by simp), List.filter_cons_of_pos (by simp [hx])]

/-- As many elements are dropped as asked for, if there are so many. -/
theorem length_withoutLast (h : k ≤ xs.countP p) : (withoutLast p k xs).length + k = xs.length := by
  induction xs generalizing k with
  | nil => simpa [withoutLast] using h
  | cons x xs ih =>
    rw [List.countP_cons] at h
    rw [withoutLast]
    split
    · next hdrop =>
      -- all elements of the kind are dropped, this one in addition to those behind it
      obtain ⟨hx, hlt⟩ := hdrop
      rw [hx, if_pos rfl] at h
      obtain rfl : k = xs.countP p + 1 := by omega
      have hall := ih (k := xs.countP p) (Nat.le_refl _)
      rw [withoutLast_of_countP_le (Nat.le_refl _)] at hall
      rw [withoutLast_of_countP_le (Nat.le_succ _), List.length_cons]
      omega
    · next hkeep =>
      have hle : k ≤ xs.countP p := by
        split at h
        · next hx => exact Nat.not_lt.1 fun hlt => hkeep ⟨hx, hlt⟩
        · exact h
      rw [List.length_cons, List.length_cons]
      have := ih hle
      omega

/-- **Dropping one after the other** leaves the lists without the last `k` elements of the kind. -/
theorem droppingLast_eq (p : α → Bool) (xs : List α) :
    droppingLast p xs = (List.range (xs.countP p + 1)).map fun k => withoutLast p k xs := by
  induction xs with
  | nil => rfl
  | cons x xs ih =>
    have hkeep : ∀ k ∈ List.range (xs.countP p + 1),
        withoutLast p k (x :: xs) = x :: withoutLast p k xs := by
      intro k hk
      have hle := List.mem_range.1 hk
      rw [withoutLast, if_neg fun h => by omega]
    rw [droppingLast, ih, List.map_map, List.countP_cons]
    cases hx : p x with
    | true =>
      -- the first element is the last one to be dropped
      rw [if_pos rfl, if_pos rfl, List.range_succ (n := xs.countP p + 1), List.map_append,
        List.map_congr_left hkeep, List.map_singleton, withoutLast, if_pos ⟨hx, by omega⟩,
        withoutLast_of_countP_le (Nat.le_succ _)]
      rfl
    | false =>
      rw [if_neg Bool.false_ne_true, if_neg Bool.false_ne_true, List.append_nil,
        List.map_congr_left hkeep]
      rfl

end Dropping

/-! ### Variants -/

section Variants

variable {parameters : List Source.Parameter} {arguments : List Argument}

theorem countP_hasDefault_zip (h : arguments.length = parameters.length) :
    (parameters.zip arguments).countP (fun pa => pa.1.hasDefault) =
      parameters.countP (·.hasDefault) := by
  calc (parameters.zip arguments).countP (fun pa => pa.1.hasDefault)
      = ((parameters.zip arguments).map Prod.fst).countP (·.hasDefault) := by
        rw [List.countP_map]; rfl
    _ = parameters.countP (·.hasDefault) := by
        rw [List.map_fst_zip (Nat.le_of_eq h.symm)]

theorem variants_eq_withoutLast (h : arguments.length = parameters.length) :
    variants parameters arguments =
      (List.range (parameters.countP (·.hasDefault) + 1)).map fun k =>
        (withoutLast (fun pa => pa.1.hasDefault) k (parameters.zip arguments)).map (·.2) := by
  rw [variants, droppingLast_eq, countP_hasDefault_zip h, List.map_map]
  rfl

/-- Each default value that is left out makes the list of arguments shorter. -/
theorem length_withoutLast_zip (h : arguments.length = parameters.length) {k : Nat}
    (hk : k ≤ parameters.countP (·.hasDefault)) :
    ((withoutLast (fun pa => pa.1.hasDefault) k (parameters.zip arguments)).map (·.2)).length + k =
      arguments.length := by
  have hle : k ≤ (parameters.zip arguments).countP fun pa => pa.1.hasDefault := by
    rwa [countP_hasDefault_zip h]
  rw [List.length_map, length_withoutLast hle, List.length_zip, ← h, Nat.min_self]

end Variants

/-! ### The ways to call a method -/

/-- The number of parameters with default values. -/
def Source.Method.defaults (m : Method) : Nat := m.parameters.countP (·.hasDefault)

namespace MethodDeclaration

variable {m : Source.Method} {d : MethodDeclaration}

/-- **A way to call a method**: the last `k` arguments with default values are left out. -/
def callForm (m : Source.Method) (d : MethodDeclaration) (k : Nat) : MethodDeclaration :=
  { d with
    arguments :=
      (withoutLast (fun pa => pa.1.hasDefault) k (m.parameters.zip d.arguments)).map (·.2) }

/-- The ways to call a method, the longest first. -/
def callForms (m : Source.Method) (d : MethodDeclaration) : List MethodDeclaration :=
  (List.range (m.defaults + 1)).map (callForm m d)

theorem mem_callForms {e : MethodDeclaration} :
    e ∈ callForms m d ↔ ∃ k ≤ m.defaults, e = callForm m d k := by
  simp only [callForms, List.mem_map, List.mem_range, Nat.lt_succ_iff, eq_comm]

/-- The declaration of a method has an argument for each parameter. -/
def Fits (m : Source.Method) (d : MethodDeclaration) : Prop :=
  d.arguments.length = m.parameters.length

/-- Nothing is left out of the longest way to call a method. -/
theorem callForm_zero (h : d.Fits m) : callForm m d 0 = d := by
  rw [callForm, withoutLast_zero, List.map_snd_zip (Nat.le_of_eq h)]

/-- Each default value that is left out makes the list of arguments shorter. -/
theorem length_callForm (h : d.Fits m) {k : Nat} (hk : k ≤ m.defaults) :
    (callForm m d k).arguments.length + k = d.arguments.length :=
  length_withoutLast_zip h hk

theorem variants_eq (h : d.Fits m) :
    (variants m.parameters d.arguments).map (fun arguments => { d with arguments }) =
      callForms m d := by
  rw [variants_eq_withoutLast h, List.map_map, callForms]
  rfl

theorem clashesWith_iff {d e : MethodDeclaration} :
    d.clashesWith e = true ↔
      d.selector = e.selector ∧ d.argumentTypeNames = e.argumentTypeNames := by
  rw [clashesWith, Bool.and_eq_true, beq_iff_eq, beq_iff_eq]

/-- Declarations that clash have the same number of arguments. -/
theorem length_eq_of_clashesWith {d e : MethodDeclaration} (h : d.clashesWith e = true) :
    d.arguments.length = e.arguments.length := by
  simpa [argumentTypeNames] using congrArg List.length (clashesWith_iff.1 h).2

/-- **The ways to call one method do not clash**, since they differ in the number of arguments. -/
theorem callForms_pairwise (h : d.Fits m) :
    (callForms m d).Pairwise fun e e' => e.clashesWith e' = false := by
  rw [callForms, List.pairwise_map]
  refine List.Pairwise.imp_of_mem (fun {k k'} hk hk' hlt => ?_) (List.pairwise_lt_range)
  rw [← Bool.not_eq_true]
  intro hclash
  have hlen := length_eq_of_clashesWith hclash
  have := length_callForm h (Nat.lt_succ_iff.1 (List.mem_range.1 hk))
  have := length_callForm h (Nat.lt_succ_iff.1 (List.mem_range.1 hk'))
  omega

end MethodDeclaration

/-! ### What a method adds -/

open MethodDeclaration

variable {m : Source.Method} {d : MethodDeclaration} {declared : List MethodDeclaration}

/-- Declarations that do not clash among themselves are judged by those before all of them. -/
theorem foldl_addUnlessClashing {ds : List MethodDeclaration}
    (h : ds.Pairwise fun d e => d.clashesWith e = false) (declared : List MethodDeclaration) :
    ds.foldl addUnlessClashing declared =
      declared ++ ds.filter fun d => !declared.any (·.clashesWith d) := by
  induction ds generalizing declared with
  | nil => simp
  | cons d ds ih =>
    obtain ⟨hd, hds⟩ := List.pairwise_cons.1 h
    rw [List.foldl_cons, ih hds, addUnlessClashing]
    cases hclash : declared.any (·.clashesWith d) with
    | true => rw [if_pos rfl, List.filter_cons_of_neg (by simp [hclash])]
    | false =>
      rw [if_neg Bool.false_ne_true, List.filter_cons_of_pos (by simp [hclash]), List.append_assoc,
        List.singleton_append]
      -- the declaration that has just been added clashes with none of those that follow
      congr 2
      refine List.filter_congr fun e he => ?_
      simp [hd e he]

/-- **What a method adds** to the declarations before it: its declaration, or if it has default
values each way to call it that does not clash with one of them. -/
def contribution (declared : List MethodDeclaration) (m : Source.Method) (d : MethodDeclaration) :
    List MethodDeclaration :=
  if m.hasDefaults then (callForms m d).filter fun e => !declared.any (·.clashesWith e) else [d]

theorem contribution_of_defaults (h : m.hasDefaults = true) :
    contribution declared m d =
      (callForms m d).filter fun e => !declared.any (·.clashesWith e) := by
  rw [contribution, if_pos h]

theorem contribution_of_no_defaults (h : m.hasDefaults = false) :
    contribution declared m d = [d] := by
  rw [contribution, h, if_neg Bool.false_ne_true]

theorem addWithVariants_eq (h : d.Fits m) (declared : List MethodDeclaration) :
    addWithVariants m d declared = declared ++ contribution declared m d := by
  rw [addWithVariants, contribution]
  split
  · rw [← foldl_addUnlessClashing (callForms_pairwise h), ← variants_eq h, List.foldl_map]
  · rfl

/-- What a method adds are ways to call it. -/
theorem mem_callForms_of_contribution (h : d.Fits m) {e : MethodDeclaration}
    (he : e ∈ contribution declared m d) : e ∈ callForms m d := by
  rw [contribution] at he
  split at he
  · exact (List.mem_filter.1 he).1
  · obtain rfl := List.mem_singleton.1 he
    exact mem_callForms.2 ⟨0, Nat.zero_le _, (callForm_zero h).symm⟩

/-- **The declaration itself** is added unless the method has default values and the declaration
clashes with an earlier one. -/
theorem mem_contribution_iff (h : d.Fits m) :
    d ∈ contribution declared m d ↔
      (m.hasDefaults = true → ∀ e ∈ declared, e.clashesWith d = false) := by
  cases hdefaults : m.hasDefaults with
  | false => simp [contribution_of_no_defaults hdefaults]
  | true =>
    have hform : d ∈ callForms m d :=
      mem_callForms.2 ⟨0, Nat.zero_le _, (callForm_zero h).symm⟩
    simp [contribution_of_defaults hdefaults, List.mem_filter, hform]

end HostBridge
