import HostBridge.Proofs.TypeReference.Signature

/-!
# What a name is built to

The name of a descriptor alone decides which sort of reference comes of it. `IsNamed` lists the
references that `TypeReference.ofName` makes, with what is known of the name in each case, so what
holds of the reference for every name is shown by going through the list.

* `TypeReference.isNamed_of_ofName` — the list is complete.
-/

namespace HostBridge.TypeReference

variable {o : Options} {name : String} {start stop : Int} {arguments : List TypeReference}
  {r : TypeReference}

/-- **A plain name**, which stands for a class: no wildcard, no array and no primitive type. -/
structure IsPlain (name : String) : Prop where
  not_wildcard : name ≠ "?"
  not_array : name.toList.head? ≠ some '['
  not_primitive : ∀ type : Primitive, type.keyword ≠ name

/-- A signature begins with a bracket. -/
theorem head?_of_spells {s : ArraySignature} (h : s.Spells name) :
    name.toList.head? = some '[' := by
  obtain ⟨hdimensions, element, -, htext⟩ := h
  obtain ⟨n, hn⟩ := Nat.exists_eq_succ_of_ne_zero (Nat.pos_iff_ne_zero.1 hdimensions)
  rw [htext, hn, List.replicate_succ, List.cons_append, List.head?_cons]

/-- **The reference for a name** that is reported from `start` up to `stop`. Plain names are the
ones that keep their arguments. -/
inductive IsNamed (o : Options) (name : String) (start stop : Int)
    (arguments : List TypeReference) : TypeReference → Prop
  | wildcard (h : name = "?") : IsNamed o name start stop arguments ⟨.wildcard, 0, 0, {}⟩
  | primitive {type : Primitive} (h : type.keyword = name) :
    IsNamed o name start stop arguments (base type 0)
  | primitiveArray {dimensions : Nat} {type : Primitive}
    (h : (⟨dimensions, .primitive type⟩ : ArraySignature).Spells name) :
    IsNamed o name start stop arguments (base type dimensions)
  | array {dimensions : Nat} {className : String}
    (h : (⟨dimensions, .named className⟩ : ArraySignature).Spells name)
    (hdot : '.' ∉ className.toList) (elementStop : Int) :
    IsNamed o name start stop arguments
      (covering (.array className dimensions (.spanning start (stop - 1)) elementStop)
        (.spanning start (stop - 1)))
  /-- The end is the one that is reported, whatever the layout of the name says. -/
  | qualifiedArray {dimensions : Nat} {className : String} {positions : List Position}
    (h : (⟨dimensions, .named className⟩ : ArraySignature).Spells name)
    (hdot : '.' ∈ className.toList)
    (hlayout : positions = Position.layout (Dotted.split className) start (stop - 2 * dimensions)) :
    IsNamed o name start stop arguments
      ((reaching (.arrayQualified (Dotted.split className) dimensions positions)
        positions).withRange (Position.firstStart positions) (stop - 1))
  | single (h : IsPlain name) (hdot : '.' ∉ name.toList) (hnil : arguments = []) :
    IsNamed o name start stop arguments
      ((covering (.single name (.spanning start (stop - 1)))
        (.spanning start (stop - 1))).ignoringRawTypes !o.checkGenerics)
  | parameterizedSingle (h : IsPlain name) (hdot : '.' ∉ name.toList) (hne : arguments ≠ []) :
    IsNamed o name start stop arguments
      (covering (.parameterizedSingle name (.spanning start (stop - 1)) arguments)
        (.spanning start (stop - 1)))
  | qualified {positions : List Position} (h : IsPlain name) (hdot : '.' ∈ name.toList)
    (hnil : arguments = []) (hlayout : positions = Position.layout (Dotted.split name) start stop) :
    IsNamed o name start stop arguments
      ((reaching (.qualified (Dotted.split name) positions) positions).ignoringRawTypes
        !o.checkGenerics)
  | parameterizedQualified {positions : List Position} (h : IsPlain name)
    (hdot : '.' ∈ name.toList) (hne : arguments ≠ [])
    (hlayout : positions = Position.layout (Dotted.split name) start stop) :
    IsNamed o name start stop arguments
      (reaching (.parameterizedQualified (Dotted.split name) positions
        (List.replicate ((Dotted.split name).length - 1) none ++ [some arguments])) positions)

theorem isNamed_of_ofSignature (harray : name.toList.head? = some '[')
    (h : ofSignature name start stop = .ok r) : IsNamed o name start stop arguments r := by
  cases htext : ArraySignature.ofText? name with
  | none =>
    rw [ofSignature, htext] at h
    cases h
  | some s =>
    have hspells := (ArraySignature.ofText?_eq_some_iff harray).1 htext
    obtain ⟨dimensions, element⟩ := s
    rw [ofSignature, htext] at h
    cases element with
    | primitive type =>
      obtain rfl := Except.ok.inj h
      exact .primitiveArray hspells
    | named className =>
      dsimp only at h
      split at h
      · next hdot =>
        obtain rfl := Except.ok.inj h
        exact .qualifiedArray hspells hdot rfl
      · next hdot =>
        obtain rfl := Except.ok.inj h
        exact .array hspells hdot _

theorem isNamed_ofQualifiedName (hplain : IsPlain name) (hdot : '.' ∈ name.toList) :
    IsNamed o name start stop arguments (ofQualifiedName o name start stop arguments) := by
  unfold ofQualifiedName
  dsimp only
  split
  · next hnil => exact .qualified hplain hdot (List.isEmpty_iff.1 hnil) rfl
  · next hne => exact .parameterizedQualified hplain hdot (mt List.isEmpty_iff.2 hne) rfl

theorem isNamed_of_ofSimpleName (hplain : IsPlain name) (hdot : '.' ∉ name.toList)
    (h : ofSimpleName o name start stop arguments = .ok r) :
    IsNamed o name start stop arguments r := by
  unfold ofSimpleName at h
  dsimp only at h
  split at h
  · next hnil =>
    split at h
    · cases h
    · obtain rfl := Except.ok.inj h
      exact .single hplain hdot (List.isEmpty_iff.1 hnil)
  · next hne =>
    obtain rfl := Except.ok.inj h
    exact .parameterizedSingle hplain hdot (mt List.isEmpty_iff.2 hne)

/-- **What a name is built to** is in the list. -/
theorem isNamed_of_ofName (h : ofName o name start stop arguments = .ok r) :
    IsNamed o name start stop arguments r := by
  by_cases harray : name.toList.head? = some '['
  · rw [ofName_of_isArray harray] at h
    exact isNamed_of_ofSignature harray h
  · rw [ofName, if_neg harray] at h
    split at h
    · next hwildcard =>
      obtain rfl := Except.ok.inj h
      exact .wildcard hwildcard
    · next hwildcard =>
      split at h
      · next type htype =>
        obtain rfl := Except.ok.inj h
        exact .primitive (Primitive.keyword_of_ofKeyword? htype)
      · next hno =>
        have hplain : IsPlain name :=
          ⟨hwildcard, harray, Primitive.ofKeyword?_eq_none_iff.1 hno⟩
        split at h
        · next hdot =>
          obtain rfl := Except.ok.inj h
          exact isNamed_ofQualifiedName hplain hdot
        · next hdot => exact isNamed_of_ofSimpleName hplain hdot h

/-- An array has dimensions. -/
theorem IsNamed.dimensions_pos (h : IsNamed o name start stop arguments r)
    (harray : name.toList.head? = some '[') : 0 < r.dimensions := by
  cases h with
  | wildcard h =>
    rw [h] at harray
    cases harray
  | @primitive type h =>
    rw [← h] at harray
    cases type <;> cases harray
  | primitiveArray h | array h | qualifiedArray h => exact h.dimensions
  | single h | parameterizedSingle h | qualified h | parameterizedQualified h =>
    exact absurd harray h.not_array

end HostBridge.TypeReference
