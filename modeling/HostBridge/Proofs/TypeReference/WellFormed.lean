import HostBridge.Proofs.TypeReference.Arguments
import HostBridge.Proofs.TypeReference.Names
import Mathlib.Logic.Relation

/-!
# Well-formed type references

The lists in a type reference go together: a qualified name has a position for each token, its type
arguments are held for each token and only the last one has any. Nothing in the type of references
says so, but the builder keeps it at every depth, `TypeReference.WellFormed`.

The name that a reference prints and its type arguments can be told from the descriptor: the name is
the one of the descriptor, without a trace of type arguments or offsets, and the arguments are those
of the entries that are no type variables. Wildcards, arrays and primitive types are exceptions:
the first two have a name of their own, and none of them keeps arguments.

* `TypeReference.wellFormed_iff` — a reference is well formed if its shape is and the references
  directly inside of it are;
* `TypeReference.build_wellFormed` — what is built is well formed, and keeps its name and arguments.
-/

namespace HostBridge

open Relation (ReflTransGen)

/-! ### Well-formedness -/

/-- **A qualified name**: a position for each token, of which there are two at least. -/
structure IsQualified (tokens : List String) (positions : List Position) : Prop where
  two_le : 2 ≤ tokens.length
  not_mem_dot : ∀ token ∈ tokens, '.' ∉ token.toList
  length_eq : positions.length = tokens.length

/-- **A well-formed shape**, whatever the references inside of it are. A wildcard has a bound if and
only if it is one for subtypes or supertypes, since there are no other shapes of wildcards. -/
inductive TypeShape.WellFormed : TypeShape → Prop
  | wildcard : WellFormed .wildcard
  | wildcardExtends (bound : TypeReference) : WellFormed (.wildcardExtends bound)
  | wildcardSuper (bound : TypeReference) : WellFormed (.wildcardSuper bound)
  | base (type : Primitive) (dimensions : Nat) : WellFormed (.base type dimensions)
  | single (token : String) (position : Position) : WellFormed (.single token position)
  | parameterizedSingle (token : String) (position : Position) {arguments : List TypeReference}
    (hne : arguments ≠ []) : WellFormed (.parameterizedSingle token position arguments)
  | qualified {tokens : List String} {positions : List Position}
    (h : IsQualified tokens positions) : WellFormed (.qualified tokens positions)
  | parameterizedQualified {tokens : List String} {positions : List Position}
    {arguments : List TypeReference} (h : IsQualified tokens positions) (hne : arguments ≠ []) :
    WellFormed (.parameterizedQualified tokens positions
      (List.replicate (tokens.length - 1) none ++ [some arguments]))
  | array (token : String) {dimensions : Nat} (position : Position) (elementStop : Int)
    (h : 1 ≤ dimensions) : WellFormed (.array token dimensions position elementStop)
  | arrayQualified {tokens : List String} {dimensions : Nat} {positions : List Position}
    (h : IsQualified tokens positions) (hdimensions : 1 ≤ dimensions) :
    WellFormed (.arrayQualified tokens dimensions positions)

/-- The references directly inside of a shape: the bound of a wildcard, or the type arguments of all
segments. -/
def TypeShape.inner : TypeShape → List TypeReference
  | wildcardExtends bound | wildcardSuper bound => [bound]
  | parameterizedSingle _ _ arguments => arguments
  | parameterizedQualified _ _ arguments => arguments.flatMap fun segment => segment.getD []
  | _ => []

/-- The type arguments of a shape, which belong to its last segment. -/
def TypeShape.arguments : TypeShape → List TypeReference
  | parameterizedSingle _ _ arguments => arguments
  | parameterizedQualified _ _ arguments => arguments.getLast?.join.getD []
  | _ => []

namespace TypeReference

/-- The second reference stands directly inside of the first one. -/
def Holds (r p : TypeReference) : Prop := p ∈ r.shape.inner

/-- What holds of a reference and of the references inside of it, at every depth. -/
def Everywhere (P : TypeReference → Prop) (r : TypeReference) : Prop :=
  ∀ p, ReflTransGen Holds r p → P p

theorem everywhere_iff {P : TypeReference → Prop} {r : TypeReference} :
    r.Everywhere P ↔ P r ∧ ∀ p ∈ r.shape.inner, p.Everywhere P := by
  refine ⟨fun h => ⟨h r .refl, fun p hp q hq => h q (.head hp hq)⟩, fun h q hq => ?_⟩
  rcases ReflTransGen.cases_head hq with rfl | ⟨p, hp, hq⟩
  · exact h.1
  · exact h.2 p hp q hq

/-- **A well-formed reference**: at every depth each reference has a well-formed shape. -/
def WellFormed (r : TypeReference) : Prop := ∀ p, ReflTransGen Holds r p → p.shape.WellFormed

theorem wellFormed_iff {r : TypeReference} :
    r.WellFormed ↔ r.shape.WellFormed ∧ ∀ p ∈ r.shape.inner, p.WellFormed :=
  everywhere_iff (P := fun p => p.shape.WellFormed)

end TypeReference

/-! ### Names -/

/-- A name with a dot has a segment on either side of it. -/
theorem Dotted.two_le_length_split {name : String} (h : '.' ∈ name.toList) :
    2 ≤ (split name).length := by
  have hjoin := join_split name
  have hdot : ∀ token ∈ split name, '.' ∉ token.toList := fun _ htoken =>
    not_mem_of_mem_split htoken
  match hsplit : split name with
  | [] => exact absurd hsplit (split_ne_nil name)
  | [token] =>
    rw [hsplit, join, String.intercalate_singleton] at hjoin
    rw [← hjoin] at h
    exact absurd h (hdot token (by rw [hsplit]; exact List.mem_singleton_self _))
  | _ :: _ :: _ => exact Nat.le_add_left 2 _

namespace TypeReference

variable {o : Options} {name : String} {start stop : Int} {arguments : List TypeReference}
  {r : TypeReference}

/-- The segments of a name with their layout. -/
theorem isQualified_layout (hdot : '.' ∈ name.toList) (start stop : Int) :
    IsQualified (Dotted.split name) (Position.layout (Dotted.split name) start stop) where
  two_le := Dotted.two_le_length_split hdot
  not_mem_dot _ := Dotted.not_mem_of_mem_split
  length_eq := Position.length_layout _ _ _

/-! ### What a name is built to -/

/-- **The reference for a name** is well formed apart from its arguments. -/
theorem IsNamed.wellFormed (h : IsNamed o name start stop arguments r) : r.shape.WellFormed := by
  cases h with
  | wildcard => exact .wildcard
  | primitive | primitiveArray => exact .base _ _
  | array h _ _ => exact .array _ _ _ h.dimensions
  | qualifiedArray h hdot hlayout =>
    exact .arrayQualified (hlayout ▸ isQualified_layout hdot _ _) h.dimensions
  | single => exact .single _ _
  | parameterizedSingle _ _ hne => exact .parameterizedSingle _ _ hne
  | qualified _ hdot _ hlayout => exact .qualified (hlayout ▸ isQualified_layout hdot _ _)
  | parameterizedQualified _ hdot hne hlayout =>
    exact .parameterizedQualified (hlayout ▸ isQualified_layout hdot _ _) hne

/-- No reference but the arguments is inside of the reference for a name. -/
theorem IsNamed.inner_subset (h : IsNamed o name start stop arguments r) :
    ∀ p ∈ r.shape.inner, p ∈ arguments := by
  cases h with
  | wildcard | primitive | primitiveArray | array | qualifiedArray | single | qualified =>
    exact nofun
  | parameterizedSingle => exact fun _ hp => hp
  | parameterizedQualified =>
    intro p hp
    obtain ⟨segment, hsegment, hp⟩ := List.mem_flatMap.1 hp
    rcases List.mem_append.1 hsegment with hsegment | hsegment
    · -- no segment but the last one has arguments
      rw [List.eq_of_mem_replicate hsegment] at hp
      exact absurd hp List.not_mem_nil
    · obtain rfl := List.mem_singleton.1 hsegment
      exact hp

/-- **The reference for a plain name** prints it, and keeps the arguments unless it is a primitive
type. -/
theorem IsNamed.typeName_and_arguments (h : IsNamed o name start stop arguments r)
    (hwildcard : name ≠ "?") (harray : name.toList.head? ≠ some '[') :
    r.typeName = name ∧
      ((∀ type : Primitive, type.keyword ≠ name) → r.shape.arguments = arguments) := by
  cases h with
  | wildcard h => exact absurd h hwildcard
  | @primitive type h =>
    refine ⟨?_, fun hno => absurd h (hno type)⟩
    have hbrackets : brackets 0 = "" := rfl
    rw [base, typeName, TypeShape.typeName, h, hbrackets, String.append_empty]
  | primitiveArray h | array h | qualifiedArray h => exact absurd (head?_of_spells h) harray
  | single _ _ hnil =>
    refine ⟨?_, fun _ => hnil.symm⟩
    rw [covering, ignoringRawTypes, typeName, TypeShape.typeName]
  | parameterizedSingle =>
    refine ⟨?_, fun _ => rfl⟩
    rw [covering, typeName, TypeShape.typeName]
  | qualified _ _ hnil _ =>
    refine ⟨?_, fun _ => hnil.symm⟩
    rw [reaching, ignoringRawTypes, typeName, TypeShape.typeName, Dotted.join_split]
  | parameterizedQualified =>
    refine ⟨?_, fun _ => by simp [reaching, TypeShape.arguments]⟩
    rw [reaching, typeName, TypeShape.typeName, Dotted.join_split]

/-! ### What a descriptor is built to -/

/-- What holds everywhere in the reference of a source holds everywhere in the argument, if it holds
of the argument itself. -/
theorem everywhere_argumentOf {P : TypeReference → Prop} {g : Source.Generic}
    (hself : P (argumentOf g r)) (h : r.Everywhere P) : (argumentOf g r).Everywhere P := by
  refine everywhere_iff.2 ⟨hself, fun p hp => ?_⟩
  rw [argumentOf] at hp
  split at hp
  · -- the bound of a wildcard is all that is inside of it
    split at hp
    · obtain rfl := List.mem_singleton.1 hp
      exact h
    · obtain rfl := List.mem_singleton.1 hp
      exact h
  · exact (everywhere_iff.1 h).2 p hp

/-- **What building keeps.** What holds of the reference for each name and of each wildcard holds of
what is built at every depth, by induction over the descriptor. -/
theorem everywhere_of_build {P : TypeReference → Prop}
    (hname : ∀ {name start stop arguments r}, IsNamed o name start stop arguments r → P r)
    (hunbound : ∀ start, P ⟨.wildcard, start, start, {}⟩)
    (hargument : ∀ g r, P r → P (argumentOf g r)) (d : Source.Descriptor) :
    ∀ r, build o d = .ok r → r.Everywhere P := by
  induction d using Source.Descriptor.induction with
  | step d ih =>
    intro r h
    rw [build_eq] at h
    obtain ⟨arguments, harguments, h⟩ := bind_eq_ok.1 h
    have hnamed := isNamed_of_ofName h
    refine everywhere_iff.2 ⟨hname hnamed, fun p hp => ?_⟩
    obtain ⟨g, hg, hbuild⟩ := exists_of_mem_buildArguments harguments (hnamed.inner_subset p hp)
    rcases argument_cases hbuild with rfl | ⟨s, r', hs, hr', rfl⟩
    · exact everywhere_iff.2 ⟨hunbound g.start, nofun⟩
    · have hsource := ih g hg s hs r' hr'
      exact everywhere_argumentOf (hargument g r' (everywhere_iff.1 hsource).1) hsource

/-- The shape of an argument is well formed if that of its source is. -/
theorem wellFormed_argumentOf (g : Source.Generic) (h : r.shape.WellFormed) :
    (argumentOf g r).shape.WellFormed := by
  rw [argumentOf]
  split
  · split
    · exact .wildcardExtends r
    · exact .wildcardSuper r
  · exact h

/-- **Building makes well-formed references.** -/
theorem wellFormed_of_build (d : Source.Descriptor) :
    ∀ r, build o d = .ok r → r.WellFormed :=
  everywhere_of_build (fun h => h.wellFormed) (fun _ => .wildcard)
    (fun g _ => wellFormed_argumentOf g) d

/-- **What a descriptor is built to.** The reference is well formed at every depth. Unless it is a
wildcard or an array it prints the name of the descriptor. Unless this is the name of a primitive
type as well, the type arguments are those of the entries that are no type variables, in order. -/
theorem build_wellFormed {d : Source.Descriptor} (h : build o d = .ok r) :
    r.WellFormed ∧
      (d.name ≠ "?" → d.isArray = false →
        r.typeName = d.name ∧
        ((∀ type : Primitive, type.keyword ≠ d.name) →
          (d.generics.filter Source.Generic.yields).map (buildArgument o) =
            r.shape.arguments.map fun a => .ok (some a))) := by
  refine ⟨wellFormed_of_build d r h, fun hwildcard harray => ?_⟩
  rw [build_eq] at h
  obtain ⟨arguments, harguments, h⟩ := bind_eq_ok.1 h
  have hplain : d.name.toList.head? ≠ some '[' := by simpa [Source.Descriptor.isArray] using harray
  obtain ⟨hname, hkept⟩ := (isNamed_of_ofName h).typeName_and_arguments hwildcard hplain
  refine ⟨hname, fun hprimitive => ?_⟩
  rw [hkept hprimitive]
  exact arguments_of_buildArguments harguments

end TypeReference

/-- A map from something like lists of strings to a type variable, as written at the beginning of a
file. -/
def Source.Descriptor.listMap : Descriptor :=
  ((named "java.util.Map").placedAt 0 13).withGenerics
    [(Generic.unbound 14 46).boundedAbove
      [((named "java.util.List").placedAt 24 38).withGenerics
        [.plain ((named "String").placedAt 39 45)]],
      .parameter "V" 48 49]

/-- The wildcard is an argument with an argument inside of its bound; the type variable is none. -/
theorem TypeReference.build_wellFormed_listMap :
    ∃ r, build {} .listMap = .ok r ∧ r.WellFormed ∧ r.typeName = "java.util.Map" ∧
      (Source.Descriptor.listMap.generics.take 1).map (buildArgument {}) =
        r.shape.arguments.map (fun a => .ok (some a)) ∧
      r.shape.arguments.map text = ["? extends java.util.List"] := by
  obtain ⟨r, hr, htext⟩ : ∃ r, build {} .listMap = .ok r ∧
      r.shape.arguments.map text = ["? extends java.util.List"] :=
    exists_of_map_toOption (by decide +kernel)
  obtain ⟨hwellFormed, hkept⟩ := build_wellFormed hr
  obtain ⟨hname, harguments⟩ := hkept (by decide) (by decide)
  exact ⟨r, hr, hwellFormed, hname, harguments (fun type => by cases type <;> decide), htext⟩

end HostBridge
