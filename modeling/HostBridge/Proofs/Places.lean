import Mathlib.Data.List.DropRight

/-!
# Elements and their places

Elements of a list that are equal are still told apart by their places, counted from zero. To leave
out some elements means to leave out their places, `withoutPlaces`, and the places of the elements
that satisfy a predicate are `List.findIdxs`.

The lemmas say how this goes along a list: the places in the tail are those in the list less one, so
they follow from `withoutPlaces_shift` and `withoutPlaces_zero_cons` by induction on the list. The
last of the places splits the list, `split_of_getLast?_findIdxs`.
-/

namespace HostBridge

variable {α β : Type}

/-- The list without the elements at some places. -/
def withoutPlaces (places : List Nat) (xs : List α) : List α :=
  (xs.zipIdx.filter fun x => x.2 ∉ places).map (·.1)

@[simp] theorem withoutPlaces_nil_left (xs : List α) : withoutPlaces [] xs = xs := by
  simp [withoutPlaces]

@[simp] theorem withoutPlaces_nil_right (places : List Nat) :
    withoutPlaces places ([] : List α) = [] := rfl

theorem withoutPlaces_map (f : α → β) (places : List Nat) (xs : List α) :
    withoutPlaces places (xs.map f) = (withoutPlaces places xs).map f := by
  rw [withoutPlaces, List.zipIdx_map, List.filter_map, List.map_map, withoutPlaces, List.map_map]
  rfl

theorem withoutPlaces_cons (places : List Nat) (x : α) (xs : List α) :
    withoutPlaces places (x :: xs) =
      (if 0 ∈ places then [] else [x]) ++
        ((xs.zipIdx.filter fun y => y.2 + 1 ∉ places).map (·.1)) := by
  rw [withoutPlaces, List.zipIdx_cons', List.filter_cons, List.filter_map]
  by_cases hzero : 0 ∈ places <;> simp [hzero, Function.comp_def]

/-- The places in the tail of a list. -/
theorem withoutPlaces_shift (places : List Nat) (x : α) (xs : List α) :
    withoutPlaces (places.map (· + 1)) (x :: xs) = x :: withoutPlaces places xs := by
  rw [withoutPlaces_cons, if_neg (by simp)]
  simp [withoutPlaces]

/-- The first place, and places in the tail of a list. -/
theorem withoutPlaces_zero_cons (places : List Nat) (x : α) (xs : List α) :
    withoutPlaces (0 :: places.map (· + 1)) (x :: xs) = withoutPlaces places xs := by
  rw [withoutPlaces_cons, if_pos List.mem_cons_self]
  simp [withoutPlaces]

/-- The places of the elements that satisfy a predicate. -/
theorem findIdxs_cons_shift (p : α → Bool) (x : α) (xs : List α) :
    (x :: xs).findIdxs p =
      if p x then 0 :: (xs.findIdxs p).map (· + 1) else (xs.findIdxs p).map (· + 1) := by
  rw [List.findIdxs_cons, List.findIdxs_start (s := 0 + 1)]

/-- The last place of an element that satisfies a predicate has none of them behind it. -/
theorem split_of_getLast?_findIdxs {p : α → Bool} {xs : List α} {i : Nat}
    (h : (xs.findIdxs p).getLast? = some i) :
    ∃ before x after, xs = before ++ x :: after ∧ before.length = i ∧ p x = true ∧
      ∀ y ∈ after, p y = false := by
  induction xs generalizing i with
  | nil => cases h
  | cons x xs ih =>
    rw [findIdxs_cons_shift] at h
    cases hlast : (xs.findIdxs p).getLast? with
    | some j =>
      obtain ⟨before, y, after, rfl, rfl, hy, hafter⟩ := ih hlast
      refine ⟨x :: before, y, after, rfl, ?_, hy, hafter⟩
      split at h <;> simp_all [List.getLast?_cons]
    | none =>
      have hnone := List.getLast?_eq_none_iff.1 hlast
      rw [hnone] at h
      cases hx : p x with
      | false => simp [hx] at h
      | true =>
        refine ⟨[], x, xs, rfl, by simpa [hx] using h, hx, ?_⟩
        simpa [List.findIdxs_eq_nil_iff] using hnone

end HostBridge
