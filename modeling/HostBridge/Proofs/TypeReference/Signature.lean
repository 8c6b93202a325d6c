import HostBridge.TypeReference.Build
import Mathlib.Data.List.TakeWhile

/-!
# Reading array signatures

The signature of an array type is written with an opening bracket for each dimension and the element
behind them. The element is one letter for a primitive type, or the name of a class between `L` and
`;`. Which characters stand in that name makes no difference: it may hold brackets, further
semicolons and characters of several bytes.

* `ArraySignature.ofText?_eq_some_iff` — a text is read exactly if it is written in that way, and
  what is read are the parts it is written from;
* `TypeReference.build_arraySignature` — the reference for a name that starts with a bracket.

No element starts with a bracket, so the brackets that are counted are all those at the beginning.
-/

namespace HostBridge

/-! ### How signatures are written -/

/-- The letters of the primitive types. There is none for `void`. -/
def Primitive.letters : List (Char × Primitive) :=
  [('D', .double), ('I', .int), ('F', .float), ('J', .long), ('Z', .boolean), ('B', .byte),
    ('C', .char), ('S', .short)]

/-- **How an element is written.** -/
inductive ArrayElement.Spells : ArrayElement → List Char → Prop
  | primitive {c : Char} {type : Primitive} (h : (c, type) ∈ Primitive.letters) :
    Spells (.primitive type) [c]
  | named {className : String} (h : className ≠ "") :
    Spells (.named className) ('L' :: (className.toList ++ [';']))

/-- **How a signature is written**: a bracket for each dimension, of which there is at least one,
and the element. -/
structure ArraySignature.Spells (s : ArraySignature) (text : String) : Prop where
  dimensions : 1 ≤ s.dimensions
  text : ∃ element, s.element.Spells element ∧
    text.toList = List.replicate s.dimensions '[' ++ element

/-- The name of an element as it is printed. -/
def ArrayElement.name : ArrayElement → String
  | primitive type => type.keyword
  | named className => className

/-! ### Reading elements -/

theorem Primitive.ofLetter?_eq_some_iff {c : Char} {type : Primitive} :
    ofLetter? c = some type ↔ (c, type) ∈ letters := by
  constructor
  · intro h
    have hletter := letter?_of_ofLetter? h
    cases type <;> cases hletter <;> decide
  · intro h
    simp only [letters, List.mem_cons, Prod.mk.injEq, List.not_mem_nil, or_false] at h
    rcases h with ⟨rfl, rfl⟩ | ⟨rfl, rfl⟩ | ⟨rfl, rfl⟩ | ⟨rfl, rfl⟩ | ⟨rfl, rfl⟩ | ⟨rfl, rfl⟩ |
      ⟨rfl, rfl⟩ | ⟨rfl, rfl⟩ <;> rfl

namespace ArrayElement

/-- No element starts with a bracket. -/
theorem Spells.head?_ne {e : ArrayElement} {cs : List Char} (h : e.Spells cs) :
    cs.head? ≠ some '[' := by
  cases h with
  | primitive h =>
    rintro hhead
    obtain rfl := Option.some.inj hhead
    simp [Primitive.letters] at h
  | named => simp

theorem ofChars?_eq_some_iff {cs : List Char} {e : ArrayElement} :
    ofChars? cs = some e ↔ e.Spells cs := by
  constructor
  · intro h
    unfold ofChars? at h
    split at h
    · next c =>
      obtain ⟨type, htype, rfl⟩ := Option.map_eq_some_iff.1 h
      exact .primitive (Primitive.ofLetter?_eq_some_iff.1 htype)
    · next body _ =>
      split at h
      · next hbody =>
        obtain rfl := Option.some.inj h
        obtain ⟨className, rfl⟩ := List.getLast?_eq_some_iff.1 hbody.1
        rw [List.dropLast_concat] at hbody ⊢
        have hne : String.ofList className ≠ "" := fun hempty =>
          hbody.2 (by rw [← String.toList_ofList (l := className), hempty, String.toList_empty])
        have hspells := Spells.named hne
        rwa [String.toList_ofList] at hspells
      · cases h
    · cases h
  · intro h
    cases h with
    | primitive h => rw [ofChars?, Primitive.ofLetter?_eq_some_iff.2 h, Option.map_some]
    | @named className h =>
      have hne : className.toList ≠ [] := fun hnil => h (String.toList_eq_nil_iff.1 hnil)
      -- with the semicolon there are two characters at least, so this is no letter
      unfold ofChars?
      split
      · next heq => simp at heq
      · next body _ heq =>
        obtain ⟨-, rfl⟩ := List.cons.inj heq
        rw [List.dropLast_concat, if_pos ⟨List.getLast?_concat, hne⟩, String.ofList_toList]
      · next hother => exact absurd rfl (hother _)

end ArrayElement

/-! ### Reading signatures -/

namespace ArraySignature

/-- All brackets at the beginning are counted. -/
theorem split_brackets {cs : List Char} (k : Nat) (hcs : cs.head? ≠ some '[') :
    (List.replicate k '[' ++ cs).takeWhile (· == '[') = List.replicate k '[' ∧
      (List.replicate k '[' ++ cs).dropWhile (· == '[') = cs := by
  have hbrackets : ∀ c ∈ List.replicate k '[', (c == '[') = true := fun c hc => by
    rw [List.eq_of_mem_replicate hc, beq_self_eq_true]
  rw [List.takeWhile_append_of_pos hbrackets, List.dropWhile_append_of_pos hbrackets]
  cases cs with
  | nil => simp
  | cons c cs =>
    have hc : c ≠ '[' := fun heq => hcs (by rw [heq, List.head?_cons])
    simp [hc]

/-- **Reading signatures.** A text with a bracket at its beginning is read exactly if it is written
like a signature. -/
theorem ofText?_eq_some_iff {text : String} {s : ArraySignature}
    (harray : text.toList.head? = some '[') : ofText? text = some s ↔ s.Spells text := by
  rw [ofText?, Option.map_eq_some_iff]
  constructor
  · rintro ⟨e, he, rfl⟩
    have hbrackets : text.toList.takeWhile (· == '[') =
        List.replicate (text.toList.takeWhile (· == '[')).length '[' :=
      List.eq_replicate_of_mem fun c hc => by simpa using List.mem_takeWhile_imp hc
    refine ⟨?_, _, ArrayElement.ofChars?_eq_some_iff.1 he, ?_⟩
    · obtain ⟨cs, hcs⟩ := List.head?_eq_some_iff.1 harray
      simp [hcs]
    · rw [← hbrackets, List.takeWhile_append_dropWhile]
  · rintro ⟨-, cs, hcs, htext⟩
    obtain ⟨htake, hdrop⟩ := split_brackets s.dimensions hcs.head?_ne
    rw [htext]
    refine ⟨s.element, ?_, ?_⟩
    · rw [hdrop, ArrayElement.ofChars?_eq_some_iff]
      exact hcs
    · rw [htake, List.length_replicate]

end ArraySignature

/-! ### The reference for a signature -/

namespace TypeReference

variable {o : Options} {name : String} {start stop : Int}

/-- A name that starts with a bracket is taken for a signature. -/
theorem ofName_of_isArray (harray : name.toList.head? = some '[') (arguments : List TypeReference) :
    ofName o name start stop arguments = ofSignature name start stop := by
  rw [ofName, if_neg, if_pos harray]
  rintro rfl
  cases harray

/-- **The reference for a signature.** It has the dimensions and the element of the signature, and a
class is named as in the signature, with its packages as tokens of their own. -/
structure IsArrayOf (r : TypeReference) (s : ArraySignature) : Prop where
  dimensions : r.dimensions = s.dimensions
  typeName : r.typeName = s.element.name ++ brackets s.dimensions
  primitive : ∀ type, s.element = .primitive type → r.shape = .base type s.dimensions
  simple : ∀ className, s.element = .named className → '.' ∉ className.toList →
    ∃ position elementStop, r.shape = .array className s.dimensions position elementStop
  qualified : ∀ className, s.element = .named className → '.' ∈ className.toList →
    ∃ tokens positions, Dotted.join tokens = className ∧
      r.shape = .arrayQualified tokens s.dimensions positions

theorem ofSignature_of_some {s : ArraySignature} (h : ArraySignature.ofText? name = some s) :
    ∃ r, ofSignature name start stop = .ok r ∧ r.IsArrayOf s := by
  obtain ⟨dimensions, element⟩ := s
  rw [ofSignature, h]
  cases element with
  | primitive type =>
    refine ⟨_, rfl, rfl, ?_, fun _ htype => ?_, fun _ hname => ?_, fun _ hname => ?_⟩
    · rw [base, typeName, TypeShape.typeName]
      rfl
    · obtain rfl := ArrayElement.primitive.inj htype
      rfl
    · cases hname
    · cases hname
  | named className =>
    dsimp only
    split
    · next hdot =>
      refine ⟨_, rfl, rfl, ?_, fun _ htype => ?_, fun _ hname hno => ?_, fun _ hname _ => ?_⟩
      · rw [reaching, withRange, typeName, TypeShape.typeName, Dotted.join_split]
        rfl
      · cases htype
      · obtain rfl := ArrayElement.named.inj hname
        exact absurd hdot hno
      · obtain rfl := ArrayElement.named.inj hname
        exact ⟨_, _, Dotted.join_split _, rfl⟩
    · next hdot =>
      refine ⟨_, rfl, rfl, ?_, fun _ htype => ?_, fun _ hname _ => ?_, fun _ hname hyes => ?_⟩
      · rw [covering, typeName, TypeShape.typeName]
        rfl
      · cases htype
      · obtain rfl := ArrayElement.named.inj hname
        exact ⟨_, _, rfl⟩
      · obtain rfl := ArrayElement.named.inj hname
        exact absurd hyes hdot

/-- A signature has a reference. -/
theorem ofSignature_of_spells (harray : name.toList.head? = some '[') {s : ArraySignature}
    (h : s.Spells name) : ∃ r, ofSignature name start stop = .ok r ∧ r.IsArrayOf s :=
  ofSignature_of_some ((ArraySignature.ofText?_eq_some_iff harray).2 h)

/-- What is no signature is refused. -/
theorem ofSignature_of_not_spells (harray : name.toList.head? = some '[')
    (h : ¬ ∃ s : ArraySignature, s.Spells name) :
    ofSignature name start stop = .error (.malformedSignature name) := by
  have htext : ArraySignature.ofText? name = none :=
    Option.eq_none_iff_forall_ne_some.2 fun s hs =>
      h ⟨s, (ArraySignature.ofText?_eq_some_iff harray).1 hs⟩
  rw [ofSignature, htext]

/-- A descriptor without type arguments is built by its name alone. -/
theorem build_of_no_generics (placeholder : Bool) :
    build o ⟨name, start, stop, [], placeholder⟩ = ofName o name (max start 0) (max stop 0) [] := by
  rw [build, buildArguments]
  rfl

/-- **Array signatures.** A name that starts with a bracket is built exactly if it is written like a
signature, wherever it stands, and the reference is an array of what the signature says. Any other
such name is refused with the fault that names it. -/
theorem build_arraySignature (o : Options) {name : String} (harray : name.toList.head? = some '[')
    (start stop : Int) (placeholder : Bool) :
    ((∃ r, build o ⟨name, start, stop, [], placeholder⟩ = .ok r) ↔
      ∃ s : ArraySignature, s.Spells name) ∧
    ((¬ ∃ s : ArraySignature, s.Spells name) →
      build o ⟨name, start, stop, [], placeholder⟩ = .error (.malformedSignature name)) ∧
    ∀ s : ArraySignature, s.Spells name →
      ∃ r, build o ⟨name, start, stop, [], placeholder⟩ = .ok r ∧ r.IsArrayOf s := by
  rw [build_of_no_generics, ofName_of_isArray harray]
  have hread (s : ArraySignature) (hs : s.Spells name) :
      ∃ r, ofSignature name (max start 0) (max stop 0) = .ok r ∧ r.IsArrayOf s :=
    ofSignature_of_spells harray hs
  by_cases h : ∃ s : ArraySignature, s.Spells name
  · obtain ⟨s, hs⟩ := h
    obtain ⟨r, hr, -⟩ := hread s hs
    exact ⟨⟨fun _ => ⟨s, hs⟩, fun _ => ⟨r, hr⟩⟩, fun hnone => absurd ⟨s, hs⟩ hnone, hread⟩
  · have herror : ofSignature name (max start 0) (max stop 0) =
        .error (.malformedSignature name) := ofSignature_of_not_spells harray h
    refine ⟨⟨fun ⟨r, hr⟩ => ?_, fun hs => absurd hs h⟩, fun _ => herror, hread⟩
    rw [herror] at hr
    cases hr

/-- A matrix of a qualified class, which is written somewhere. -/
theorem build_arraySignature_matrix :
    "[[Ljava.lang.Number;".toList.head? = some '[' ∧
      (⟨2, .named "java.lang.Number"⟩ : ArraySignature).Spells "[[Ljava.lang.Number;" ∧
      ∃ r, build {} ⟨"[[Ljava.lang.Number;", 0, 20, [], false⟩ = .ok r ∧
        r.IsArrayOf ⟨2, .named "java.lang.Number"⟩ := by
  have harray : "[[Ljava.lang.Number;".toList.head? = some '[' := by decide
  have hspells : (⟨2, .named "java.lang.Number"⟩ : ArraySignature).Spells "[[Ljava.lang.Number;" :=
    ⟨by decide, _, .named (by decide), by decide⟩
  exact ⟨harray, hspells, (build_arraySignature {} harray 0 20 false).2.2 _ hspells⟩

/-- A tail that looks like the name of a class, but has no letter in front of it. -/
example : build {} ⟨"[Number;", 0, 8, [], false⟩ = .error (.malformedSignature "[Number;") := by
  rfl

end TypeReference

end HostBridge
