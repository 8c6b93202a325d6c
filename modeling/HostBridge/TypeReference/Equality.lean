import HostBridge.TypeReference.Basic

/-!
# Equality of type references

Two type references are equal if all of their parts are, at every depth. `TypeReference.same`
compares them, and `TypeReference.same_iff` says that it does, which makes equality decidable.
-/

namespace HostBridge

mutual

def TypeReference.same : TypeReference → TypeReference → Bool
  | ⟨s, start, stop, flags⟩, ⟨s', start', stop', flags'⟩ =>
    s.same s' && start == start' && stop == stop' && flags == flags'

def TypeShape.same : TypeShape → TypeShape → Bool
  | .wildcard, .wildcard => true
  | .wildcardExtends b, .wildcardExtends b' => b.same b'
  | .wildcardSuper b, .wildcardSuper b' => b.same b'
  | .base t d, .base t' d' => t == t' && d == d'
  | .single t p, .single t' p' => t == t' && p == p'
  | .parameterizedSingle t p as, .parameterizedSingle t' p' as' =>
    t == t' && p == p' && TypeReference.sameAll as as'
  | .qualified ts ps, .qualified ts' ps' => ts == ts' && ps == ps'
  | .parameterizedQualified ts ps ss, .parameterizedQualified ts' ps' ss' =>
    ts == ts' && ps == ps' && TypeReference.sameSegments ss ss'
  | .array t d p e, .array t' d' p' e' => t == t' && d == d' && p == p' && e == e'
  | .arrayQualified ts d ps, .arrayQualified ts' d' ps' => ts == ts' && d == d' && ps == ps'
  | _, _ => false

def TypeReference.sameAll : List TypeReference → List TypeReference → Bool
  | [], [] => true
  | r :: rs, r' :: rs' => r.same r' && TypeReference.sameAll rs rs'
  | _, _ => false

/-- Whether two lists of type arguments, one for each segment, are equal. -/
def TypeReference.sameSegments :
    List (Option (List TypeReference)) → List (Option (List TypeReference)) → Bool
  | [], [] => true
  | none :: ss, none :: ss' => TypeReference.sameSegments ss ss'
  | some as :: ss, some as' :: ss' =>
    TypeReference.sameAll as as' && TypeReference.sameSegments ss ss'
  | _, _ => false

end

mutual

theorem TypeReference.same_iff : (r r' : TypeReference) → (r.same r' = true ↔ r = r')
  | ⟨s, _, _, _⟩, ⟨s', _, _, _⟩ => by
    simp [TypeReference.same, TypeShape.same_iff s s', and_assoc]

theorem TypeShape.same_iff : (s s' : TypeShape) → (s.same s' = true ↔ s = s')
  | .wildcard, s' => by cases s' <;> simp [TypeShape.same]
  | .wildcardExtends b, s' => by
    cases s' <;> simp [TypeShape.same, TypeReference.same_iff b]
  | .wildcardSuper b, s' => by
    cases s' <;> simp [TypeShape.same, TypeReference.same_iff b]
  | .base _ _, s' => by cases s' <;> simp [TypeShape.same]
  | .single _ _, s' => by cases s' <;> simp [TypeShape.same]
  | .parameterizedSingle _ _ as, s' => by
    cases s' <;> simp [TypeShape.same, TypeReference.sameAll_iff as, and_assoc]
  | .qualified _ _, s' => by cases s' <;> simp [TypeShape.same]
  | .parameterizedQualified _ _ ss, s' => by
    cases s' <;> simp [TypeShape.same, TypeReference.sameSegments_iff ss, and_assoc]
  | .array _ _ _ _, s' => by cases s' <;> simp [TypeShape.same, and_assoc]
  | .arrayQualified _ _ _, s' => by cases s' <;> simp [TypeShape.same, and_assoc]

theorem TypeReference.sameAll_iff :
    (rs rs' : List TypeReference) → (TypeReference.sameAll rs rs' = true ↔ rs = rs')
  | [], rs' => by cases rs' <;> simp [TypeReference.sameAll]
  | r :: rs, rs' => by
    cases rs' <;>
      simp [TypeReference.sameAll, TypeReference.same_iff r, TypeReference.sameAll_iff rs]

theorem TypeReference.sameSegments_iff :
    (ss ss' : List (Option (List TypeReference))) →
      (TypeReference.sameSegments ss ss' = true ↔ ss = ss')
  | [], ss' => by cases ss' <;> simp [TypeReference.sameSegments]
  | none :: ss, ss' => by
    rcases ss' with _ | ⟨_ | _, ss'⟩ <;>
      simp [TypeReference.sameSegments, TypeReference.sameSegments_iff ss]
  | some as :: ss, ss' => by
    rcases ss' with _ | ⟨_ | _, ss'⟩ <;>
      simp [TypeReference.sameSegments, TypeReference.sameAll_iff as,
        TypeReference.sameSegments_iff ss]

end

instance : DecidableEq TypeReference := fun r r' => decidable_of_iff _ (TypeReference.same_iff r r')

instance : DecidableEq TypeShape := fun s s' => decidable_of_iff _ (TypeShape.same_iff s s')

end HostBridge
