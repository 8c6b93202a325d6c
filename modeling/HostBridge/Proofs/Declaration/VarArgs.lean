import HostBridge.Proofs.Declaration.Emitted
import HostBridge.Proofs.TypeReference.WellFormed

/-!
# Which types take a variable number of values

The mark for a variable number of values is set on the last argument of a member, before the
overloads of the member are made by dropping arguments. An overload may lose the marked argument,
but it never gains one behind it, so a marked argument is the last one of every declaration. Its
type is an array: that of a parameter declared as one, or the array of texts that the entry point of
a script is given.

The other references of a declaration are listed by `TypeContent.references`. Together with what is
inside of them, and inside of the types of arguments, they are all that a declaration refers to, and
none of them is marked:

* `TypeReference.unmarked_of_build` — building sets no mark at any depth;
* `TypeContent.unmarked_of_ofClass` — nor does putting together what a type declares, apart from
  arguments;
* `Argument.marksLast_of_areBuilt`, `Argument.MarksLast.sublist` — where arguments are marked, and
  that it stays so when some are dropped;
* `MethodDeclaration.takesMany_callForm_iff` — which overloads have a marked argument;
* `DeclarationTree.varArgs_sound` — the declarations of a tree.
-/

namespace HostBridge

/-! ### References without a mark -/

namespace TypeReference

variable {o : Options} {d : Source.Descriptor} {r r' : TypeReference}

/-- **No mark**, neither on the reference nor on any reference inside of it. -/
def Unmarked (r : TypeReference) : Prop := r.Everywhere fun p => p.flags.varArgs = false

theorem unmarked_iff :
    r.Unmarked ↔ r.flags.varArgs = false ∧ ∀ p ∈ r.shape.inner, p.Unmarked :=
  everywhere_iff

/-- Ranges and other marks make no difference. -/
theorem Unmarked.congr (h : r.Unmarked) (hshape : r'.shape = r.shape)
    (hflags : r'.flags.varArgs = r.flags.varArgs) : r'.Unmarked := by
  rw [unmarked_iff] at h ⊢
  rw [hshape, hflags]
  exact h

/-- The mark is not set for a name. -/
theorem IsNamed.varArgs_eq_false {name : String} {start stop : Int}
    {arguments : List TypeReference} (h : IsNamed o name start stop arguments r) :
    r.flags.varArgs = false := by
  cases h <;> rfl

/-- **Building sets no mark.** -/
theorem unmarked_of_build (h : build o d = .ok r) : r.Unmarked := by
  refine everywhere_of_build (fun h => h.varArgs_eq_false) (fun _ => rfl) (fun g p hp => ?_) d r h
  rw [argumentOf]
  split
  · rfl
  · exact hp

/-- An array has dimensions. -/
theorem dimensions_pos_of_build (h : build o d = .ok r) (harray : d.isArray = true) :
    0 < r.dimensions := by
  rw [build_eq] at h
  obtain ⟨arguments, -, h⟩ := bind_eq_ok.1 h
  exact (isNamed_of_ofName h).dimensions_pos (of_decide_eq_true harray)

theorem unmarked_base (type : Primitive) (dimensions : Nat) : (base type dimensions).Unmarked :=
  unmarked_iff.2 ⟨rfl, nofun⟩

theorem unmarked_ofChain (tokens : List String) (start stop : Int) :
    (ofChain tokens start stop).Unmarked := by
  unfold ofChain
  split
  · exact unmarked_base .void 0
  · exact unmarked_iff.2 ⟨rfl, nofun⟩
  · exact unmarked_iff.2 ⟨rfl, nofun⟩

theorem unmarked_ofIdentifier (name : String) (start stop : Int) :
    (ofIdentifier name start stop).Unmarked := by
  unfold ofIdentifier
  split
  · exact unmarked_iff.2 ⟨rfl, nofun⟩
  · exact unmarked_iff.2 ⟨rfl, nofun⟩

end TypeReference

/-! ### The references of declarations -/

/-- The class in the value of a member. -/
def MemberValue.references : MemberValue → List TypeReference
  | classLiteral _ type => [type]
  | stringLiteral _ | arrayInitializer _ => []

def Annotation.references (a : Annotation) : List TypeReference :=
  a.type :: a.value.toList.flatMap (·.references)

/-- The bounds of a type parameter. -/
def TypeParameter.references (p : TypeParameter) : List TypeReference := p.type.toList ++ p.bounds

def FieldDeclaration.references (d : FieldDeclaration) : List TypeReference :=
  d.type :: d.annotations.flatMap (·.references)

/-- The references of a method or a constructor apart from its arguments. -/
def MethodDeclaration.references (d : MethodDeclaration) : List TypeReference :=
  d.returnType?.toList ++ d.annotations.flatMap (·.references)

/-- **The references of a type** apart from the arguments of its methods and the types nested in
it. -/
def TypeContent.references (t : TypeContent) : List TypeReference :=
  t.annotations.flatMap (·.references) ++ t.typeParameters.flatMap (·.references) ++
    t.superClass.toList ++ t.superInterfaces ++ t.fields.flatMap (·.references) ++
    t.methods.flatMap (·.references)

section

variable {o : Options} {comments : List Source.Comment}

/-- Whatever its shape, an annotation is made from its type, which is built first. A class in it is
not built, only its name is taken. -/
theorem Annotation.isMadeFrom_of_build {a : Source.AnnotationUse} {n : Annotation}
    (h : build o a = .ok (some n)) :
    (∃ type stop, TypeReference.build o a.type = .ok type ∧ n.type = type.withRange a.start stop) ∧
      ∀ value ∈ n.value, ∀ r ∈ value.references,
        (∃ tokens start stop, r = .ofChain tokens start stop) ∨
          ∃ name start stop, r = .ofIdentifier name start stop := by
  unfold build at h
  dsimp only at h
  cases hclassify : AnnotationShape.classify a with
  | unsupported =>
    rw [hclassify] at h
    cases h
  | marker | testMarker =>
    rw [hclassify] at h
    obtain ⟨type, htype, h⟩ := bind_eq_ok.1 h
    obtain rfl := Option.some.inj (Except.ok.inj h)
    exact ⟨⟨type, _, htype, rfl⟩, nofun⟩
  | classLiteral object stop =>
    rw [hclassify] at h
    obtain ⟨type, htype, h⟩ := bind_eq_ok.1 h
    obtain rfl := Option.some.inj (Except.ok.inj h)
    refine ⟨⟨type, _, htype, rfl⟩, fun value hvalue r hr => .inl ?_⟩
    obtain rfl := Option.some.inj hvalue
    exact ⟨_, _, _, List.mem_singleton.1 hr⟩
  | identifierAsClass name stop =>
    rw [hclassify] at h
    obtain ⟨type, htype, h⟩ := bind_eq_ok.1 h
    obtain rfl := Option.some.inj (Except.ok.inj h)
    refine ⟨⟨type, _, htype, rfl⟩, fun value hvalue r hr => .inr ?_⟩
    obtain rfl := Option.some.inj hvalue
    exact ⟨_, _, _, List.mem_singleton.1 hr⟩
  | stringLiteral | stringList =>
    rw [hclassify] at h
    obtain ⟨type, htype, h⟩ := bind_eq_ok.1 h
    obtain rfl := Option.some.inj (Except.ok.inj h)
    refine ⟨⟨type, _, htype, rfl⟩, fun value hvalue r hr => ?_⟩
    obtain rfl := Option.some.inj hvalue
    exact absurd hr List.not_mem_nil

/-- The references of an annotation with a class are its type and this class. -/
theorem Annotation.unmarked_of_build {a : Source.AnnotationUse} {n : Annotation}
    (h : build o a = .ok (some n)) : ∀ r ∈ n.references, r.Unmarked := by
  obtain ⟨⟨type, stop, htype, hn⟩, hvalue⟩ := isMadeFrom_of_build h
  intro r hr
  rcases List.mem_cons.1 hr with rfl | hr
  · rw [hn]
    exact (TypeReference.unmarked_of_build htype).congr rfl rfl
  · obtain ⟨value, hmem, hr⟩ := List.mem_flatMap.1 hr
    rcases hvalue value (Option.mem_toList.1 hmem) r hr with ⟨_, _, _, rfl⟩ | ⟨_, _, _, rfl⟩
    · exact TypeReference.unmarked_ofChain _ _ _
    · exact TypeReference.unmarked_ofIdentifier _ _ _

theorem Annotation.unmarked_of_buildAll {as : List Source.AnnotationUse} {ns : List Annotation}
    (h : buildAll o as = .ok ns) : ∀ r ∈ ns.flatMap (·.references), r.Unmarked := by
  induction as generalizing ns with
  | nil =>
    obtain rfl := Except.ok.inj h
    exact nofun
  | cons a as ih =>
    rw [buildAll] at h
    obtain ⟨n?, hn, h⟩ := bind_eq_ok.1 h
    obtain ⟨rest, hrest, h⟩ := bind_eq_ok.1 h
    obtain rfl := Except.ok.inj h
    intro r hr
    rw [List.flatMap_append, List.mem_append] at hr
    rcases hr with hr | hr
    · cases n? with
      | none => exact absurd hr List.not_mem_nil
      | some n => exact unmarked_of_build hn r (by simpa using hr)
    · exact ih hrest r hr

theorem TypeParameter.unmarked_of_ofGeneric {g : Source.Generic} {p : TypeParameter}
    (h : ofGeneric o g = .ok p) : ∀ r ∈ p.references, r.Unmarked := by
  rw [ofGeneric] at h
  split at h
  · obtain rfl := Except.ok.inj h
    exact nofun
  · obtain ⟨type, htype, h⟩ := bind_eq_ok.1 h
    obtain ⟨bounds, hbounds, h⟩ := bind_eq_ok.1 h
    obtain rfl := Except.ok.inj h
    intro r hr
    rcases List.mem_cons.1 hr with rfl | hr
    · exact TypeReference.unmarked_of_build htype
    · obtain ⟨bound, hbound, rfl⟩ := List.mem_map.1 hr
      obtain ⟨d, -, hd⟩ := exists_of_mem_buildEach hbounds hbound
      exact (TypeReference.unmarked_of_build hd).congr rfl rfl

theorem FieldDeclaration.unmarked_of_ofField {f : Source.Field} {d : FieldDeclaration}
    (h : ofField o comments f = .ok d) : ∀ r ∈ d.references, r.Unmarked := by
  rw [ofField] at h
  obtain ⟨type, htype, h⟩ := bind_eq_ok.1 h
  obtain ⟨annotations, hannotations, h⟩ := bind_eq_ok.1 h
  obtain rfl := Except.ok.inj h
  intro r hr
  rcases List.mem_cons.1 hr with rfl | hr
  · exact TypeReference.unmarked_of_build htype
  · exact Annotation.unmarked_of_buildAll hannotations r hr

/-- The overloads of a member have its result and its annotations. -/
theorem MethodDeclaration.unmarked_of_ofMember {c : Source.Class} {m : Source.Member}
    {d : MethodDeclaration} (h : ofMember o comments c m = .ok d) (k : Nat) :
    ∀ r ∈ (callForm m.node d k).references, r.Unmarked := by
  have hbuilt := isBuiltFrom_of_ofMember h
  intro r hr
  have hr : r ∈ d.references := hr
  rcases List.mem_append.1 hr with hr | hr
  · rcases hbuilt.returnType r (Option.mem_toList.1 hr) with rfl | hr
    · exact TypeReference.unmarked_base .void 0
    · exact TypeReference.unmarked_of_build hr
  · exact Annotation.unmarked_of_buildAll hbuilt.annotations r hr

/-- **What a type declares** apart from arguments is not marked. -/
theorem TypeContent.unmarked_of_ofClass {c : Source.Class} {t : TypeContent}
    (h : ofClass o comments c = .ok t) : ∀ r ∈ t.references, r.Unmarked := by
  have hbuilt := isBuiltFrom_of_ofClass h
  intro r hr
  simp only [references, List.mem_append, or_assoc] at hr
  rcases hr with hr | hr | hr | hr | hr | hr
  · exact Annotation.unmarked_of_buildAll hbuilt.annotations r hr
  · obtain ⟨p, hp, hr⟩ := List.mem_flatMap.1 hr
    obtain ⟨g, -, hg⟩ := exists_of_mem_buildEach hbuilt.typeParameters hp
    exact TypeParameter.unmarked_of_ofGeneric hg r hr
  · have hsuperClass := hbuilt.superClass
    rw [Option.mem_toList.1 hr] at hsuperClass
    generalize writtenSuperClass? c = d? at hsuperClass
    cases hsuperClass with
    | some hd => exact TypeReference.unmarked_of_build hd
  · obtain ⟨d, -, hd⟩ := exists_of_mem_buildEach hbuilt.superInterfaces hr
    exact TypeReference.unmarked_of_build hd
  · obtain ⟨f, hf, hr⟩ := List.mem_flatMap.1 hr
    obtain ⟨field, -, hfield⟩ := exists_of_mem_buildEach hbuilt.fields hf
    exact FieldDeclaration.unmarked_of_ofField hfield r hr
  · obtain ⟨e, he, hr⟩ := List.mem_flatMap.1 hr
    rcases origin_of_mem_methods h he with rfl | ⟨m, -, d, hd, k, -, rfl⟩
    · exact absurd hr List.not_mem_nil
    · exact MethodDeclaration.unmarked_of_ofMember hd k r hr

end

/-! ### Arguments -/

namespace Argument

variable {o : Options} {parameters : List Source.Parameter} {arguments : List Argument}
  {entryPoint : Bool}

/-- **Arguments of which only the last one may be marked**, and only if it is an array. What is
inside of their types is not marked. -/
structure MarksLast (arguments : List Argument) : Prop where
  inner : ∀ a ∈ arguments, ∀ p ∈ a.type.shape.inner, p.Unmarked
  pairwise : arguments.Pairwise fun a _ => a.type.flags.varArgs = false
  array : ∀ a ∈ arguments, a.type.flags.varArgs = true → 0 < a.type.dimensions

/-- **Dropping arguments** puts none behind the last one. -/
theorem MarksLast.sublist {kept : List Argument} (h : MarksLast arguments)
    (hkept : kept.Sublist arguments) : MarksLast kept where
  inner a ha := h.inner a (hkept.subset ha)
  pairwise := h.pairwise.sublist hkept
  array a ha := h.array a (hkept.subset ha)

/-- Nothing follows a marked argument. -/
theorem MarksLast.eq_nil {before after : List Argument} {a : Argument}
    (h : MarksLast (before ++ a :: after)) (ha : a.type.flags.varArgs = true) : after = [] := by
  cases after with
  | nil => rfl
  | cons b after =>
    have hpairwise := (List.pairwise_append.1 h.pairwise).2.1
    have hunmarked := (List.pairwise_cons.1 hpairwise).1 b List.mem_cons_self
    rw [ha] at hunmarked
    cases hunmarked

theorem type_of_ofParameter {p : Source.Parameter} {a : Argument}
    (h : ofParameter o p = .ok a) : TypeReference.build o p.type = .ok a.type := by
  rw [ofParameter] at h
  obtain ⟨type, htype, h⟩ := bind_eq_ok.1 h
  obtain rfl := Except.ok.inj h
  exact htype

theorem unmarked_of_forall₂
    (h : List.Forall₂ (fun p a => ofParameter o p = .ok a) parameters arguments) :
    ∀ a ∈ arguments, a.type.Unmarked := fun _ ha =>
  let ⟨_, _, hbuilt⟩ := exists_of_mem_forall₂ h ha
  TypeReference.unmarked_of_build (type_of_ofParameter hbuilt)

/-- Nothing is marked. -/
theorem MarksLast.of_unmarked (h : ∀ a ∈ arguments, a.type.Unmarked) : MarksLast arguments := by
  have hflags (a : Argument) (ha : a ∈ arguments) : a.type.flags.varArgs = false :=
    (TypeReference.unmarked_iff.1 (h a ha)).1
  refine ⟨fun a ha => (TypeReference.unmarked_iff.1 (h a ha)).2, ?_, fun a ha hmarked => ?_⟩
  · exact List.pairwise_iff_forall_sublist.2 fun hsublist =>
      hflags _ (hsublist.subset List.mem_cons_self)
  · rw [hflags a ha] at hmarked
    cases hmarked

/-- One more argument may be marked if those before it are not. -/
theorem MarksLast.concat (hunmarked : ∀ a ∈ arguments, a.type.Unmarked) {a : Argument}
    (hinner : ∀ p ∈ a.type.shape.inner, p.Unmarked) (harray : 0 < a.type.dimensions) :
    MarksLast (arguments ++ [a]) := by
  have hfront := of_unmarked hunmarked
  refine ⟨fun b hb => ?_, List.pairwise_append.2 ⟨hfront.pairwise, List.pairwise_singleton _ _,
    fun b hb _ _ => (TypeReference.unmarked_iff.1 (hunmarked b hb)).1⟩, fun b hb hmarked => ?_⟩
  · rcases List.mem_append.1 hb with hb | hb
    · exact hfront.inner b hb
    · exact List.mem_singleton.1 hb ▸ hinner
  · rcases List.mem_append.1 hb with hb | hb
    · exact hfront.array b hb hmarked
    · exact List.mem_singleton.1 hb ▸ harray

/-- **The arguments of a member** are marked like this. -/
theorem marksLast_of_areBuilt (h : AreBuilt o entryPoint parameters arguments) :
    MarksLast arguments := by
  cases h with
  | plain h _ _ => exact .of_unmarked (unmarked_of_forall₂ h)
  | @varArgs _ _ p a h ha harray _ =>
    have htype := type_of_ofParameter ha
    have hinner := (TypeReference.unmarked_iff.1 (TypeReference.unmarked_of_build htype)).2
    have hdimensions : 0 < a.type.dimensions := TypeReference.dimensions_pos_of_build htype harray
    exact .concat (unmarked_of_forall₂ h) hinner hdimensions
  | texts _ _ =>
    have hnone : ∀ a ∈ ([] : List Argument), a.type.Unmarked := nofun
    exact .concat hnone nofun Nat.one_pos

/-- **The last argument of a member** is marked exactly if the parameter is declared as an array, or
for the entry point of a script. -/
theorem AreBuilt.exists_last {p : Source.Parameter}
    (h : AreBuilt o entryPoint (parameters ++ [p]) arguments) :
    ∃ front a, arguments = front ++ [a] ∧ front.length = parameters.length ∧
      (∀ b ∈ front, b.type.flags.varArgs = false) ∧
      (a.type.flags.varArgs = true ↔ p.type.isArray = true ∨ entryPoint = true) := by
  generalize hall : parameters ++ [p] = all at h
  cases h with
  | plain h hlast hentry =>
    subst hall
    have harray : p.type.isArray = false := hlast p List.getLast?_concat
    obtain ⟨front, a, rfl, hfront, ha⟩ := exists_of_forall₂_concat h
    have ha' := TypeReference.unmarked_of_build (type_of_ofParameter ha)
    refine ⟨front, a, rfl, hfront.length_eq.symm, fun b hb => ?_, ?_⟩
    · exact (TypeReference.unmarked_iff.1 (unmarked_of_forall₂ hfront b hb)).1
    · simp [(TypeReference.unmarked_iff.1 ha').1, harray, hentry]
  | @varArgs _ front _ a h _ harray _ =>
    obtain ⟨rfl, hp⟩ := List.append_inj' hall rfl
    obtain rfl := List.singleton_inj.1 hp
    refine ⟨front, a.asVarArgs, rfl, h.length_eq.symm, fun b hb => ?_, ?_⟩
    · exact (TypeReference.unmarked_iff.1 (unmarked_of_forall₂ h b hb)).1
    · exact iff_of_true rfl (.inl harray)
  | texts _ hentry =>
    obtain rfl : parameters = [] := by simpa using congrArg List.length hall
    exact ⟨[], _, rfl, rfl, nofun, iff_of_true rfl (.inr hentry)⟩

end Argument

/-! ### Overloads -/

namespace MethodDeclaration

variable {m : Source.Method} {d : MethodDeclaration}

/-- A declaration that takes a variable number of values. -/
def TakesMany (d : MethodDeclaration) : Prop := ∃ a ∈ d.arguments, a.type.flags.varArgs = true

/-- The last argument is the first one to be left out. -/
theorem exists_callForm_concat {parameters : List Source.Parameter} {p : Source.Parameter}
    {front : List Argument} {a : Argument} (hparameters : m.parameters = parameters ++ [p])
    (harguments : d.arguments = front ++ [a]) (hlength : front.length = parameters.length)
    (k : Nat) :
    ∃ kept : List Argument, kept.Sublist front ∧
      (callForm m d k).arguments =
        if p.hasDefault = true ∧ 0 < k then kept else kept ++ [a] := by
  rw [callForm]
  dsimp only
  rw [hparameters, harguments, List.zip_append hlength.symm, List.zip_cons_cons,
    List.zip_nil_left, withoutLast_concat]
  split
  · exact ⟨_, map_snd_withoutLast_sublist hlength (k - 1), rfl⟩
  · refine ⟨_, map_snd_withoutLast_sublist hlength k, ?_⟩
    rw [List.map_append, List.map_singleton]

/-- **An overload takes a variable number of values** if the member does and the last argument is
not among those that are left out. -/
theorem takesMany_callForm_iff {o : Options} {entryPoint : Bool}
    (h : Argument.AreBuilt o entryPoint m.parameters d.arguments) (k : Nat) :
    (callForm m d k).TakesMany ↔
      ∃ p ∈ m.parameters.getLast?, (p.type.isArray = true ∨ entryPoint = true) ∧
        (k = 0 ∨ p.hasDefault = false) := by
  rcases List.eq_nil_or_concat' m.parameters with hnil | ⟨parameters, p, hparameters⟩
  · -- without parameters there are no arguments
    have hnone : (callForm m d k).arguments = [] := by rw [callForm, hnil]; rfl
    rw [TakesMany, hnone, hnil]
    constructor
    · rintro ⟨a, ha, -⟩
      exact absurd ha List.not_mem_nil
    · rintro ⟨p, hp, -⟩
      cases hp
  · rw [hparameters] at h ⊢
    obtain ⟨front, a, harguments, hlength, hfront, ha⟩ := h.exists_last
    obtain ⟨kept, hkept, hform⟩ := exists_callForm_concat hparameters harguments hlength k
    have hunmarked : ¬ ∃ b ∈ kept, b.type.flags.varArgs = true := by
      rintro ⟨b, hb, hmarked⟩
      rw [hfront b (hkept.subset hb)] at hmarked
      cases hmarked
    have hleft : (k = 0 ∨ p.hasDefault = false) ↔ ¬ (p.hasDefault = true ∧ 0 < k) := by
      rw [not_and_or, Bool.not_eq_true, Nat.not_lt, Nat.le_zero, or_comm]
    rw [TakesMany, hform]
    by_cases hdropped : p.hasDefault = true ∧ 0 < k
    · rw [if_pos hdropped]
      simp [hunmarked, mt hleft.1 (not_not.2 hdropped)]
    · rw [if_neg hdropped]
      simp [or_and_right, exists_or, hunmarked, hleft.2 hdropped, ha]

end MethodDeclaration

/-! ### Trees -/

namespace DeclarationTree

open MethodDeclaration

variable {o : Options} {m : Source.Module} {t : DeclarationTree} {type : TypeDeclaration}

/-- **Where the mark for a variable number of values stands.** In the declarations of a tree, at any
depth and with the overloads and entry points among them, an argument whose type is marked is the
last one and its type is an array. There is one exactly if the last parameter of the member is
declared as an array, or the member is the entry point of a script, and this parameter is not left
out. Nothing inside of the types of arguments is marked, and neither is any other reference of the
tree nor what is inside of it. -/
theorem varArgs_sound (h : build o m = .ok t) :
    ∀ type ∈ t.walk, (∀ r ∈ type.content.references, r.Unmarked) ∧
      ∀ e ∈ type.content.methods,
        (∀ before a after, e.arguments = before ++ a :: after →
          (∀ p ∈ a.type.shape.inner, p.Unmarked) ∧
            (a.type.flags.varArgs = true → after = [] ∧ 0 < a.type.dimensions)) ∧
        ∃ c ∈ m.primaryClasses, e = defaultConstructor c (declaredName c) ∨
          ∃ member ∈ c.members, ∃ d, ofMember o m.comments c member = .ok d ∧
            ∃ k ≤ member.node.defaults, e = callForm member.node d k ∧
              (e.TakesMany ↔ ∃ p ∈ member.node.parameters.getLast?,
                (p.type.isArray = true ∨ member.isEntryPoint = true) ∧
                  (k = 0 ∨ p.hasDefault = false)) := by
  intro type htype
  refine ⟨?_, fun e he => ?_⟩
  · obtain ⟨c, -, hcontent⟩ := exists_class_of_mem_walk h htype
    exact TypeContent.unmarked_of_ofClass hcontent
  obtain ⟨c, hc, rfl | ⟨member, hmember, d, hd, k, hk, rfl⟩⟩ := origin_of_mem_methods h htype he
  · -- the constructor that is implied has no arguments
    refine ⟨fun before a after hsplit => ?_, c, hc, .inl rfl⟩
    have hmem : a ∈ (defaultConstructor c (declaredName c)).arguments := by simp [hsplit]
    exact absurd hmem List.not_mem_nil
  · have hbuilt := (isBuiltFrom_of_ofMember hd).arguments
    have hmarks := (Argument.marksLast_of_areBuilt hbuilt).sublist
      (arguments_callForm_sublist (TypeContent.fits_of_ofMember hd) k)
    refine ⟨fun before a after hsplit => ?_, c, hc, .inr ⟨member, hmember, d, hd, k, hk, rfl,
      takesMany_callForm_iff hbuilt k⟩⟩
    rw [hsplit] at hmarks
    have hmem : a ∈ before ++ a :: after := by simp
    exact ⟨hmarks.inner a hmem, fun ha => ⟨hmarks.eq_nil ha, hmarks.array a hmem ha⟩⟩

end DeclarationTree

/-- A script `A` with a method `join(count = 1, String[] names)` and its entry point. -/
def Source.Module.withTrailingArray : Source.Module :=
  let count : Parameter := .defaulted (.plain "count" (.named "int") 12 21)
  let names : Parameter := .plain "names" (.named "[Ljava.lang.String;") 23 37
  let args : Parameter := .plain "args" .object 0 0
  let join := ((Method.plain "join" {}).withParameter count).withParameter names
  let main := ((Method.plain "main" {}).withModifiers .accStatic).withParameter args
  (empty ⟨1⟩).withClass (((Class.plain "A" {}).withMethod join).withMethod main)

/-- The last arguments are marked, that of the overload `join(names)` and that of the entry point
among them, and nothing follows them. -/
theorem DeclarationTree.varArgs_sound_withTrailingArray :
    ∃ t, build {} .withTrailingArray = .ok t ∧
      (t.walk.flatMap fun type => type.content.methods.map fun e =>
          e.arguments.map fun a => (a.name, a.type.flags.varArgs)) =
        [[], [("count", false), ("names", true)], [("names", true)], [("args", true)]] ∧
      ∀ type ∈ t.walk, ∀ e ∈ type.content.methods, ∀ before a after,
        e.arguments = before ++ a :: after → a.type.flags.varArgs = true →
          after = [] ∧ 0 < a.type.dimensions := by
  obtain ⟨t, ht, hmarks⟩ : ∃ t, build {} .withTrailingArray = .ok t ∧
      (t.walk.flatMap fun type => type.content.methods.map fun e =>
          e.arguments.map fun a => (a.name, a.type.flags.varArgs)) =
        [[], [("count", false), ("names", true)], [("names", true)], [("args", true)]] :=
    exists_of_map_toOption (by decide +kernel)
  exact ⟨t, ht, hmarks, fun type htype e he before a after hsplit =>
    (((varArgs_sound ht type htype).2 e he).1 before a after hsplit).2⟩

end HostBridge
