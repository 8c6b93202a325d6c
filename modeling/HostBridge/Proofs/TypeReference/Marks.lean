import HostBridge.TypeReference.Equality

/-!
# The marks of type references

A type reference has marks, and so have the references inside of it: the bounds of wildcards and the
type arguments of each segment. `TypeReference.mapFlags` rewrites the marks at every depth and
leaves the rest of the reference alone:

* `TypeReference.mapFlags_id` — rewriting marks to themselves does nothing, so there is no part that
  it drops;
* `TypeReference.typeName_mapFlags` — the printed name of a type does not depend on marks.

Forgetting the mark of raw uses, `ReferenceFlags.withoutRawMark`, is one such rewriting. It gets
along with the other marks: `ReferenceFlags.Spares` says of a rewriting that it commutes with
setting them.
-/

namespace HostBridge

/-! ### Rewriting marks at every depth -/

mutual

/-- Rewrites the marks of a reference and of all references inside of it. -/
def TypeReference.mapFlags (f : ReferenceFlags → ReferenceFlags) : TypeReference → TypeReference
  | ⟨shape, start, stop, flags⟩ => ⟨shape.mapFlags f, start, stop, f flags⟩

/-- Rewrites the marks of all references inside of a shape. -/
def TypeShape.mapFlags (f : ReferenceFlags → ReferenceFlags) : TypeShape → TypeShape
  | .wildcard => .wildcard
  | .wildcardExtends bound => .wildcardExtends (bound.mapFlags f)
  | .wildcardSuper bound => .wildcardSuper (bound.mapFlags f)
  | .base type dimensions => .base type dimensions
  | .single token position => .single token position
  | .parameterizedSingle token position arguments =>
    .parameterizedSingle token position (TypeReference.mapFlagsAll f arguments)
  | .qualified tokens positions => .qualified tokens positions
  | .parameterizedQualified tokens positions arguments =>
    .parameterizedQualified tokens positions (TypeReference.mapFlagsSegments f arguments)
  | .array token dimensions position elementStop => .array token dimensions position elementStop
  | .arrayQualified tokens dimensions positions => .arrayQualified tokens dimensions positions

/-- Rewrites the marks of some references. -/
def TypeReference.mapFlagsAll (f : ReferenceFlags → ReferenceFlags) :
    List TypeReference → List TypeReference
  | [] => []
  | r :: rs => r.mapFlags f :: TypeReference.mapFlagsAll f rs

/-- Rewrites the marks of type arguments that are held for each segment. -/
def TypeReference.mapFlagsSegments (f : ReferenceFlags → ReferenceFlags) :
    List (Option (List TypeReference)) → List (Option (List TypeReference))
  | [] => []
  | none :: ss => none :: TypeReference.mapFlagsSegments f ss
  | some as :: ss => some (TypeReference.mapFlagsAll f as) :: TypeReference.mapFlagsSegments f ss

end

variable {f : ReferenceFlags → ReferenceFlags}

namespace TypeReference

theorem mapFlagsAll_eq_map (rs : List TypeReference) : mapFlagsAll f rs = rs.map (mapFlags f) := by
  induction rs with
  | nil => rw [mapFlagsAll, List.map_nil]
  | cons r rs ih => rw [mapFlagsAll, List.map_cons, ih]

theorem mapFlagsSegments_eq_map (ss : List (Option (List TypeReference))) :
    mapFlagsSegments f ss = ss.map (Option.map (List.map (mapFlags f))) := by
  induction ss with
  | nil => rw [mapFlagsSegments, List.map_nil]
  | cons s ss ih =>
    cases s with
    | none => rw [mapFlagsSegments, List.map_cons, Option.map_none, ih]
    | some as => rw [mapFlagsSegments, List.map_cons, Option.map_some, mapFlagsAll_eq_map, ih]

end TypeReference

/-! ### What does not depend on marks -/

mutual

@[simp] theorem TypeReference.mapFlags_id : (r : TypeReference) → r.mapFlags id = r
  | ⟨shape, _, _, _⟩ => by
    rw [TypeReference.mapFlags, TypeShape.mapFlags_id shape, id_eq]

@[simp] theorem TypeShape.mapFlags_id : (s : TypeShape) → s.mapFlags id = s
  | .wildcardExtends bound => by
    rw [TypeShape.mapFlags, TypeReference.mapFlags_id bound]
  | .wildcardSuper bound => by
    rw [TypeShape.mapFlags, TypeReference.mapFlags_id bound]
  | .parameterizedSingle _ _ arguments => by
    rw [TypeShape.mapFlags, TypeReference.mapFlagsAll_id arguments]
  | .parameterizedQualified _ _ arguments => by
    rw [TypeShape.mapFlags, TypeReference.mapFlagsSegments_id arguments]
  | .wildcard | .base _ _ | .single _ _ | .qualified _ _ | .array _ _ _ _
  | .arrayQualified _ _ _ => by rw [TypeShape.mapFlags]

theorem TypeReference.mapFlagsAll_id :
    (rs : List TypeReference) → TypeReference.mapFlagsAll id rs = rs
  | [] => by rw [TypeReference.mapFlagsAll]
  | r :: rs => by
    rw [TypeReference.mapFlagsAll, TypeReference.mapFlags_id r, TypeReference.mapFlagsAll_id rs]

theorem TypeReference.mapFlagsSegments_id :
    (ss : List (Option (List TypeReference))) → TypeReference.mapFlagsSegments id ss = ss
  | [] => by rw [TypeReference.mapFlagsSegments]
  | none :: ss => by
    rw [TypeReference.mapFlagsSegments, TypeReference.mapFlagsSegments_id ss]
  | some as :: ss => by
    rw [TypeReference.mapFlagsSegments, TypeReference.mapFlagsAll_id as,
      TypeReference.mapFlagsSegments_id ss]

end

mutual

/-- Marks do not show in printed names. -/
@[simp] theorem TypeReference.typeName_mapFlags :
    (r : TypeReference) → (r.mapFlags f).typeName = r.typeName
  | ⟨shape, _, _, _⟩ => by
    rw [TypeReference.mapFlags, TypeReference.typeName, TypeReference.typeName,
      TypeShape.typeName_mapFlags shape]

@[simp] theorem TypeShape.typeName_mapFlags :
    (s : TypeShape) → (s.mapFlags f).typeName = s.typeName
  -- only the bounds of wildcards show in a name; type arguments do not
  | .wildcardExtends bound => by
    rw [TypeShape.mapFlags, TypeShape.typeName, TypeShape.typeName,
      TypeReference.typeName_mapFlags bound]
  | .wildcardSuper bound => by
    rw [TypeShape.mapFlags, TypeShape.typeName, TypeShape.typeName,
      TypeReference.typeName_mapFlags bound]
  | .parameterizedSingle _ _ _ | .parameterizedQualified _ _ _ => by
    rw [TypeShape.mapFlags, TypeShape.typeName, TypeShape.typeName]
  | .wildcard | .base _ _ | .single _ _ | .qualified _ _ | .array _ _ _ _
  | .arrayQualified _ _ _ => by rw [TypeShape.mapFlags]

end

/-! ### References with their own marks -/

/-- **Sparing.** A rewriting of marks spares those that are set in the course of building: it makes
no difference whether it comes before or after. -/
structure ReferenceFlags.Spares (f : ReferenceFlags → ReferenceFlags) : Prop where
  superType : ∀ flags : ReferenceFlags,
    f { flags with superType := true } = { f flags with superType := true }
  varArgs : ∀ flags : ReferenceFlags,
    f { flags with varArgs := true } = { f flags with varArgs := true }

/-- Marks without the one for raw uses. -/
def ReferenceFlags.withoutRawMark (flags : ReferenceFlags) : ReferenceFlags :=
  { flags with ignoreRawTypeCheck := false }

theorem ReferenceFlags.spares_id : Spares id := ⟨fun _ => rfl, fun _ => rfl⟩

theorem ReferenceFlags.spares_withoutRawMark : Spares withoutRawMark :=
  ⟨fun _ => rfl, fun _ => rfl⟩

namespace TypeReference

theorem mapFlags_eq (r : TypeReference) :
    r.mapFlags f = ⟨r.shape.mapFlags f, r.start, r.stop, f r.flags⟩ := by
  cases r
  rw [mapFlags]

@[simp] theorem start_mapFlags (r : TypeReference) : (r.mapFlags f).start = r.start := by
  rw [mapFlags_eq]

@[simp] theorem stop_mapFlags (r : TypeReference) : (r.mapFlags f).stop = r.stop := by
  rw [mapFlags_eq]

@[simp] theorem mapFlags_withRange (r : TypeReference) (start stop : Int) :
    (r.withRange start stop).mapFlags f = (r.mapFlags f).withRange start stop := by
  rw [mapFlags_eq, mapFlags_eq r]
  rfl

theorem mapFlags_asSuperType (hf : ReferenceFlags.Spares f) (r : TypeReference) :
    r.asSuperType.mapFlags f = (r.mapFlags f).asSuperType := by
  rw [mapFlags_eq, mapFlags_eq r]
  exact congrArg (mk _ r.start r.stop) (hf.superType r.flags)

theorem mapFlags_asVarArgs (hf : ReferenceFlags.Spares f) (r : TypeReference) :
    r.asVarArgs.mapFlags f = (r.mapFlags f).asVarArgs := by
  rw [mapFlags_eq, mapFlags_eq r]
  exact congrArg (mk _ r.start r.stop) (hf.varArgs r.flags)

end TypeReference

end HostBridge
