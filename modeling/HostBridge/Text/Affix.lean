/-!
# Beginnings and ends

Taking a given text off the beginning or the end of another one.

* `afterPrefix?_eq_some_iff` — what is left after a beginning;
* `beforeSuffix?_eq_some_iff` — what is left before an end.
-/

namespace HostBridge.Text

/-- What follows `p` in a list that begins with it. -/
def afterPrefix? {α : Type} [DecidableEq α] (p : List α) (l : List α) : Option (List α) :=
  if p.isPrefixOf l then some (l.drop p.length) else none

/-- What precedes `s` in a list that ends with it. -/
def beforeSuffix? {α : Type} [DecidableEq α] (s : List α) (l : List α) : Option (List α) :=
  if s.isSuffixOf l then some (l.take (l.length - s.length)) else none

theorem afterPrefix?_eq_some_iff {α : Type} [DecidableEq α] {p l r : List α} :
    afterPrefix? p l = some r ↔ l = p ++ r := by
  rw [afterPrefix?]
  constructor
  · intro h
    split at h
    · next hp =>
      obtain ⟨t, rfl⟩ := List.isPrefixOf_iff_prefix.1 hp
      simp_all
    · simp at h
  · rintro rfl
    simp

theorem beforeSuffix?_eq_some_iff {α : Type} [DecidableEq α] {s l r : List α} :
    beforeSuffix? s l = some r ↔ l = r ++ s := by
  rw [beforeSuffix?]
  constructor
  · intro h
    split at h
    · next hs =>
      obtain ⟨t, rfl⟩ := List.isSuffixOf_iff_suffix.1 hs
      simp_all
    · simp at h
  · rintro rfl
    simp

end HostBridge.Text
