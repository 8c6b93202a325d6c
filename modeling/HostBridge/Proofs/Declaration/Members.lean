import HostBridge.Declaration.Build
import HostBridge.Proofs.TypeReference.Arguments
import Mathlib.Data.List.Forall2

/-!
# The members of a class

The constructors and the methods of a class are declared one after the other, in one list that each
of them adds to. This file takes the two passes together: the members of a class are its
constructors and then its methods, `Source.Class.members`, and each of them has a declaration,
`MethodDeclaration.ofMember`.

* `TypeContent.isBuiltFrom_of_ofClass`, `MethodDeclaration.isBuiltFrom_of_ofMember` — what the parts
  of a type and of a declaration are built from;
* `Argument.AreBuilt.standFor` — each argument has the name and the place of its parameter;
* `TypeContent.methods_of_ofClass` — the methods of a type are what its members add, one after the
  other, to the constructor that is implied where none is written.
-/

namespace HostBridge

/-! ### What a class is built from -/

/-- **What a type is built from**: each part of it comes from the same part of its class. -/
structure TypeContent.IsBuiltFrom (o : Options) (comments : List Source.Comment) (c : Source.Class)
    (t : TypeContent) : Prop where
  name : t.name = declaredName c
  annotations : Annotation.buildAll o c.annotations = .ok t.annotations
  typeParameters : buildEach (TypeParameter.ofGeneric o) c.generics = .ok t.typeParameters
  superClass : Option.Rel (fun d r => TypeReference.build o d = .ok r) (writtenSuperClass? c)
    t.superClass
  superInterfaces : buildEach (TypeReference.build o) c.interfaces = .ok t.superInterfaces
  fields : buildEach (FieldDeclaration.ofField o comments)
    (c.fields.filter fun f => !f.isSynthetic) = .ok t.fields
  /-- The two passes that the methods come from. -/
  methods : ∃ constructors,
    MethodDeclaration.constructorsOf o comments c (declaredName c) = .ok constructors ∧
    MethodDeclaration.declareEach (MethodDeclaration.ofMethod o comments)
      (MethodDeclaration.writtenMethods c) constructors = .ok t.methods

/-- A class to extend is built if it is written. -/
theorem rel_of_superClass {o : Options} {d? : Option Source.Descriptor}
    {r? : Option TypeReference}
    (h : (match d? with
      | none => .ok none
      | some d => (TypeReference.build o d).map some : Except Fault (Option TypeReference)) =
        .ok r?) :
    Option.Rel (fun d r => TypeReference.build o d = .ok r) d? r? := by
  cases d? with
  | none =>
    obtain rfl := Except.ok.inj h
    exact .none
  | some d =>
    dsimp only at h
    cases hr : TypeReference.build o d with
    | error fault =>
      rw [hr] at h
      cases h
    | ok r =>
      rw [hr] at h
      obtain rfl := Except.ok.inj h
      exact .some hr

theorem TypeContent.isBuiltFrom_of_ofClass {o : Options} {comments : List Source.Comment}
    {c : Source.Class} {t : TypeContent} (h : ofClass o comments c = .ok t) :
    t.IsBuiltFrom o comments c := by
  rw [ofClass] at h
  obtain ⟨annotations, hannotations, h⟩ := bind_eq_ok.1 h
  obtain ⟨typeParameters, htypeParameters, h⟩ := bind_eq_ok.1 h
  dsimp only at h
  -- the cases tell whether a class to extend is written; the other parts do not depend on it
  cases hwritten : writtenSuperClass? c
  all_goals
    rw [hwritten] at h
    obtain ⟨superClass, hsuperClass, h⟩ := bind_eq_ok.1 h
    obtain ⟨superInterfaces, hsuperInterfaces, h⟩ := bind_eq_ok.1 h
    obtain ⟨fields, hfields, h⟩ := bind_eq_ok.1 h
    obtain ⟨constructors, hconstructors, h⟩ := bind_eq_ok.1 h
    obtain ⟨methods, hmethods, h⟩ := bind_eq_ok.1 h
    obtain rfl := Except.ok.inj h
    refine ⟨rfl, hannotations, htypeParameters, ?_, hsuperInterfaces, hfields, constructors,
      hconstructors, hmethods⟩
    rw [hwritten]
    exact rel_of_superClass hsuperClass

/-- A class is declared under its name within the enclosing class. -/
theorem TypeContent.name_of_ofClass {o : Options} {comments : List Source.Comment}
    {c : Source.Class} {t : TypeContent} (h : ofClass o comments c = .ok t) :
    t.name = declaredName c :=
  (isBuiltFrom_of_ofClass h).name

/-! ### Arguments -/

/-- What is on the right of a relation between lists has something on the left. -/
theorem exists_of_mem_forall₂ {α β : Type} {R : α → β → Prop} {as : List α} {bs : List β}
    (h : List.Forall₂ R as bs) {b : β} (hb : b ∈ bs) : ∃ a ∈ as, R a b := by
  induction h with
  | nil => exact absurd hb List.not_mem_nil
  | cons hab _ ih =>
    rcases List.mem_cons.1 hb with rfl | hb
    · exact ⟨_, List.mem_cons_self, hab⟩
    · obtain ⟨a, ha, hab⟩ := ih hb
      exact ⟨a, List.mem_cons_of_mem _ ha, hab⟩

/-- What is built from each element in turn, beside the element. -/
theorem forall₂_of_buildEach {α β : Type} {f : α → Except Fault β} {as : List α} {bs : List β}
    (h : buildEach f as = .ok bs) : List.Forall₂ (fun a b => f a = .ok b) as bs := by
  induction as generalizing bs with
  | nil =>
    obtain rfl := Except.ok.inj h
    exact .nil
  | cons a as ih =>
    rw [buildEach] at h
    obtain ⟨b, hb, h⟩ := bind_eq_ok.1 h
    obtain ⟨bs', hbs', h⟩ := bind_eq_ok.1 h
    obtain rfl := Except.ok.inj h
    exact .cons hb (ih hbs')

/-- Each result is built from an element. -/
theorem exists_of_mem_buildEach {α β : Type} {f : α → Except Fault β} {as : List α} {bs : List β}
    (h : buildEach f as = .ok bs) {b : β} (hb : b ∈ bs) : ∃ a ∈ as, f a = .ok b :=
  exists_of_mem_forall₂ (forall₂_of_buildEach h) hb

/-- Only the last element is modified. -/
theorem modify_concat {α : Type} (f : α → α) (front : List α) (a : α) :
    (front ++ [a]).modify front.length f = front ++ [f a] := by
  induction front with
  | nil => rfl
  | cons b front ih =>
    rw [List.cons_append, List.length_cons, List.modify_succ_cons, ih, List.cons_append]

/-- What stands beside a last element comes last as well. -/
theorem exists_of_forall₂_concat {α β : Type} {R : α → β → Prop} {as : List α} {a : α}
    {bs : List β} (h : List.Forall₂ R (as ++ [a]) bs) :
    ∃ front b, bs = front ++ [b] ∧ List.Forall₂ R as front ∧ R a b := by
  rw [← List.forall₂_reverse_iff, List.reverse_append, List.reverse_singleton,
    List.singleton_append] at h
  obtain ⟨b, back, hab, hback, hbs⟩ := List.forall₂_cons_left_iff.1 h
  refine ⟨back.reverse, b, ?_, ?_, hab⟩
  · rw [← List.reverse_cons, ← hbs, List.reverse_reverse]
  · rw [← List.forall₂_reverse_iff, List.reverse_reverse]
    exact hback

namespace Argument

variable {o : Options} {p : Source.Parameter} {a : Argument}
  {parameters : List Source.Parameter} {arguments : List Argument} {entryPoint : Bool}

/-- **The arguments for the parameters of a member**, which may be the entry point of a script. Each
of them is built on its own. After that the last one is marked if it is an array, and the one of an
entry point gets another type. -/
inductive AreBuilt (o : Options) (entryPoint : Bool) :
    List Source.Parameter → List Argument → Prop
  | plain {parameters : List Source.Parameter} {arguments : List Argument}
    (h : List.Forall₂ (fun p a => ofParameter o p = .ok a) parameters arguments)
    (hlast : ∀ p ∈ parameters.getLast?, p.type.isArray = false) (hentry : entryPoint = false) :
    AreBuilt o entryPoint parameters arguments
  | varArgs {parameters : List Source.Parameter} {arguments : List Argument}
    {p : Source.Parameter} {a : Argument}
    (h : List.Forall₂ (fun p a => ofParameter o p = .ok a) parameters arguments)
    (ha : ofParameter o p = .ok a) (harray : p.type.isArray = true) (hentry : entryPoint = false) :
    AreBuilt o entryPoint (parameters ++ [p]) (arguments ++ [a.asVarArgs])
  | texts {p : Source.Parameter} {a : Argument} (ha : ofParameter o p = .ok a)
    (hentry : entryPoint = true) :
    AreBuilt o entryPoint [p] [{ a with type := MethodDeclaration.textArray.asVarArgs }]

theorem areBuilt_of_ofParameters (h : ofParameters o parameters = .ok arguments) :
    AreBuilt o false parameters arguments := by
  rw [ofParameters] at h
  obtain ⟨built, hbuilt, h⟩ := bind_eq_ok.1 h
  replace hbuilt := forall₂_of_buildEach hbuilt
  split at h
  · next hlast =>
    obtain rfl := Except.ok.inj h
    obtain ⟨p, hp, harray⟩ := (Option.any_eq_true _ _).1 hlast
    obtain ⟨ps, rfl⟩ := List.getLast?_eq_some_iff.1 hp
    obtain ⟨front, a, rfl, hfront, ha⟩ := exists_of_forall₂_concat hbuilt
    rw [List.length_append, List.length_singleton, Nat.add_sub_cancel, modify_concat]
    exact .varArgs hfront ha harray rfl
  · next hlast =>
    obtain rfl := Except.ok.inj h
    refine .plain hbuilt (fun p hp => ?_) rfl
    rw [← Bool.not_eq_true]
    exact fun harray => hlast ((Option.any_eq_true _ _).2 ⟨p, hp, harray⟩)

/-- The only argument of a member, whose type may have been replaced. -/
theorem AreBuilt.exists_of_singleton (h : AreBuilt o entryPoint [p] arguments) :
    ∃ a type, ofParameter o p = .ok a ∧ arguments = [{ a with type }] := by
  generalize hps : [p] = ps at h
  cases h with
  | plain h =>
    subst hps
    obtain ⟨a, back, ha, hback, rfl⟩ := List.forall₂_cons_left_iff.1 h
    obtain rfl := List.forall₂_nil_left_iff.1 hback
    exact ⟨a, a.type, ha, rfl⟩
  | @varArgs parameters arguments p' a h ha _ _ =>
    obtain ⟨rfl, hp⟩ := List.append_eq_singleton_iff.1 hps.symm |>.resolve_right (by simp)
    obtain rfl := List.forall₂_nil_left_iff.1 h
    obtain rfl := List.singleton_inj.1 hp
    exact ⟨a, a.type.asVarArgs, ha, rfl⟩
  | @texts p' a ha _ =>
    obtain rfl := List.singleton_inj.1 hps
    exact ⟨a, _, ha, rfl⟩

/-- The entry point of a script has one parameter. -/
theorem exists_of_isScriptEntryPoint {m : Source.Method}
    (h : MethodDeclaration.isScriptEntryPoint m = true) : ∃ p, m.parameters = [p] := by
  rw [MethodDeclaration.isScriptEntryPoint, Bool.and_eq_true] at h
  obtain ⟨-, h⟩ := h
  split at h
  · next p hp => exact ⟨p, hp⟩
  · cases h

theorem areBuilt_of_argumentsOf {m : Source.Method}
    (h : MethodDeclaration.argumentsOf o m = .ok arguments) :
    AreBuilt o (MethodDeclaration.isScriptEntryPoint m) m.parameters arguments := by
  rw [MethodDeclaration.argumentsOf] at h
  obtain ⟨built, hbuilt, h⟩ := bind_eq_ok.1 h
  replace hbuilt := areBuilt_of_ofParameters hbuilt
  split at h
  · next hentry =>
    obtain rfl := Except.ok.inj h
    obtain ⟨p, hp⟩ := exists_of_isScriptEntryPoint hentry
    rw [hp] at hbuilt ⊢
    obtain ⟨a, type, ha, rfl⟩ := hbuilt.exists_of_singleton
    exact AreBuilt.texts (a := a) ha hentry
  · next hentry =>
    obtain rfl := Except.ok.inj h
    rw [Bool.not_eq_true] at hentry
    rw [hentry]
    exact hbuilt

/-- **An argument stands for a parameter** if it has its name and its place. -/
structure StandsFor (a : Argument) (p : Source.Parameter) : Prop where
  name : a.name = p.name
  position : a.position = .spanning p.start (p.stop - 1)
  declarationStart : a.declarationStart = p.start

theorem standsFor_of_ofParameter (h : ofParameter o p = .ok a) : a.StandsFor p := by
  rw [ofParameter] at h
  obtain ⟨type, -, h⟩ := bind_eq_ok.1 h
  obtain rfl := Except.ok.inj h
  exact ⟨rfl, rfl, rfl⟩

/-- The type of an argument has nothing to do with what it stands for. -/
theorem StandsFor.withType (h : a.StandsFor p) (type : TypeReference) :
    ({ a with type } : Argument).StandsFor p :=
  ⟨h.name, h.position, h.declarationStart⟩

/-- Each argument stands for the parameter at its place. -/
theorem AreBuilt.standFor (h : AreBuilt o entryPoint parameters arguments) :
    List.Forall₂ (fun p a => a.StandsFor p) parameters arguments := by
  cases h with
  | plain h => exact h.imp fun _ _ => standsFor_of_ofParameter
  | @varArgs _ _ p a h ha _ _ =>
    have hfront := h.imp fun _ _ => standsFor_of_ofParameter
    have hlast := (standsFor_of_ofParameter ha).withType a.type.asVarArgs
    exact List.rel_append hfront (.cons hlast .nil)
  | texts ha _ => exact .cons ((standsFor_of_ofParameter ha).withType _) .nil

/-- Arguments have the names of their parameters. -/
theorem AreBuilt.names (h : AreBuilt o entryPoint parameters arguments) :
    arguments.map (·.name) = parameters.map (·.name) := by
  have hnames : List.Forall₂ (· = ·) (parameters.map (·.name)) (arguments.map (·.name)) := by
    rw [List.forall₂_map_left_iff, List.forall₂_map_right_iff]
    exact h.standFor.imp fun _ _ hstands => hstands.name.symm
  rw [List.forall₂_eq_eq_eq] at hnames
  exact hnames.symm

end Argument

/-! ### Members -/

namespace Source

/-- A constructor or a method of a class. -/
inductive Member where
  | constructor (m : Method)
  | method (m : Method)

/-- The constructor or the method itself. -/
def Member.node : Member → Method
  | constructor m | method m => m

def Member.isConstructor : Member → Bool
  | constructor _ => true
  | method _ => false

/-- Whether this is the entry point of a script. -/
def Member.isEntryPoint : Member → Bool
  | constructor _ => false
  | method m => MethodDeclaration.isScriptEntryPoint m

/-- **The members of a class**: its constructors, then the methods that the host does not make up
itself. -/
def Class.members (c : Class) : List Member :=
  c.constructors.map .constructor ++ (MethodDeclaration.writtenMethods c).map .method

end Source

namespace MethodDeclaration

variable {o : Options} {comments : List Source.Comment} {c : Source.Class}

/-- The declaration of a member with all its arguments. -/
def ofMember (o : Options) (comments : List Source.Comment) (c : Source.Class) :
    Source.Member → Except Fault MethodDeclaration
  | .constructor m => ofConstructor o comments c (declaredName c) m
  | .method m => ofMethod o comments m

/-- **What the declaration of a member is built from**: each part of it comes from the same part of
the member. -/
structure IsBuiltFrom (o : Options) (comments : List Source.Comment) (m : Source.Member)
    (d : MethodDeclaration) : Prop where
  arguments : Argument.AreBuilt o m.isEntryPoint m.node.parameters d.arguments
  /-- The entry point of a script may have no result. -/
  returnType : ∀ r, d.returnType? = some r →
    r = .base .void 0 ∨ TypeReference.build o m.node.returnType = .ok r
  annotations : Annotation.buildAll o m.node.annotations = .ok d.annotations
  javadoc : d.javadoc = findJavadoc comments m.node.span.line
  range : d.range = .ofMethod m.node.span d.javadoc
  isConstructor : d.isConstructor = m.isConstructor

theorem isBuiltFrom_of_ofMember {m : Source.Member} {d : MethodDeclaration}
    (h : ofMember o comments c m = .ok d) : d.IsBuiltFrom o comments m := by
  cases m with
  | constructor m =>
    rw [ofMember, ofConstructor] at h
    obtain ⟨arguments, harguments, h⟩ := bind_eq_ok.1 h
    obtain ⟨annotations, hannotations, h⟩ := bind_eq_ok.1 h
    obtain rfl := Except.ok.inj h
    exact ⟨Argument.areBuilt_of_ofParameters harguments, nofun, hannotations, rfl, rfl, rfl⟩
  | method m =>
    rw [ofMember, ofMethod] at h
    obtain ⟨arguments, harguments, h⟩ := bind_eq_ok.1 h
    obtain ⟨returnType, hreturnType, h⟩ := bind_eq_ok.1 h
    obtain ⟨annotations, hannotations, h⟩ := bind_eq_ok.1 h
    obtain rfl := Except.ok.inj h
    refine ⟨Argument.areBuilt_of_argumentsOf harguments, fun r hr => ?_, hannotations, rfl, rfl,
      rfl⟩
    obtain rfl := Option.some.inj hr
    rw [returnTypeOf] at hreturnType
    split at hreturnType
    · exact .inl (Except.ok.inj hreturnType).symm
    · exact .inr hreturnType

/-- **What a declaration has from its member**: the names of the parameters, the documentation, and
the place in the file. -/
theorem ofMember_spec {m : Source.Member} {d : MethodDeclaration}
    (h : ofMember o comments c m = .ok d) :
    d.arguments.map (·.name) = m.node.parameters.map (·.name) ∧
      d.javadoc = findJavadoc comments m.node.span.line ∧
      d.range = .ofMethod m.node.span d.javadoc ∧ d.isConstructor = m.isConstructor := by
  have hbuilt := isBuiltFrom_of_ofMember h
  exact ⟨hbuilt.arguments.names, hbuilt.javadoc, hbuilt.range, hbuilt.isConstructor⟩

/-- What some members with their declarations add, one after the other. -/
def addEach (declared : List MethodDeclaration) (ps : List (Source.Member × MethodDeclaration)) :
    List MethodDeclaration :=
  ps.foldl (fun declared p => addWithVariants p.1.node p.2 declared) declared

theorem addEach_append (declared : List MethodDeclaration)
    (ps qs : List (Source.Member × MethodDeclaration)) :
    addEach declared (ps ++ qs) = addEach (addEach declared ps) qs :=
  List.foldl_append

/-- A pass over the members of one sort. -/
theorem declareEach_eq_ok (sort : Source.Method → Source.Member) (hsort : ∀ m, (sort m).node = m)
    {ms : List Source.Method} {declared all : List MethodDeclaration}
    (h : declareEach (fun m => ofMember o comments c (sort m)) ms declared = .ok all) :
    ∃ ps : List (Source.Member × MethodDeclaration), ps.map (·.1) = ms.map sort ∧
      (∀ p ∈ ps, ofMember o comments c p.1 = .ok p.2) ∧ all = addEach declared ps := by
  induction ms generalizing declared with
  | nil =>
    obtain rfl := Except.ok.inj h
    exact ⟨[], rfl, fun p hp => absurd hp List.not_mem_nil, rfl⟩
  | cons m ms ih =>
    rw [declareEach] at h
    obtain ⟨d, hd, h⟩ := bind_eq_ok.1 h
    obtain ⟨ps, hps, hdeclared, rfl⟩ := ih h
    refine ⟨(sort m, d) :: ps, by rw [List.map_cons, List.map_cons, hps], fun p hp => ?_, ?_⟩
    · rcases List.mem_cons.1 hp with rfl | hp
      · exact hd
      · exact hdeclared p hp
    · rw [addEach, addEach, List.foldl_cons, hsort]

/-- The constructor that a class has without writing it: that of a class, not of an interface, that
declares none. -/
def impliedConstructors (c : Source.Class) : List MethodDeclaration :=
  if c.constructors.isEmpty ∧ c.isInterface = false then [defaultConstructor c (declaredName c)]
  else []

theorem constructorsOf_eq_ok {constructors : List MethodDeclaration}
    (h : constructorsOf o comments c (declaredName c) = .ok constructors) :
    ∃ ps : List (Source.Member × MethodDeclaration),
      ps.map (·.1) = c.constructors.map Source.Member.constructor ∧
      (∀ p ∈ ps, ofMember o comments c p.1 = .ok p.2) ∧
      constructors = addEach (impliedConstructors c) ps := by
  rw [constructorsOf] at h
  cases hnone : c.constructors.isEmpty with
  | true =>
    rw [hnone, if_pos rfl] at h
    obtain rfl := Except.ok.inj h
    refine ⟨[], by rw [List.isEmpty_iff.1 hnone]; rfl, fun p hp => absurd hp List.not_mem_nil, ?_⟩
    cases hinterface : c.isInterface <;> simp [addEach, impliedConstructors, hnone, hinterface]
  | false =>
    rw [hnone, if_neg Bool.false_ne_true] at h
    have himplied : impliedConstructors c = [] := by simp [impliedConstructors, hnone]
    rw [himplied]
    exact declareEach_eq_ok .constructor (fun _ => rfl) h

end MethodDeclaration

/-- **The methods of a type** are what the members of its class add, one after the other. -/
theorem TypeContent.methods_of_ofClass {o : Options} {comments : List Source.Comment}
    {c : Source.Class} {t : TypeContent} (h : ofClass o comments c = .ok t) :
    ∃ ps : List (Source.Member × MethodDeclaration), ps.map (·.1) = c.members ∧
      (∀ p ∈ ps, MethodDeclaration.ofMember o comments c p.1 = .ok p.2) ∧
      t.methods =
        MethodDeclaration.addEach (MethodDeclaration.impliedConstructors c) ps := by
  obtain ⟨constructors, hconstructors, hmethods⟩ := (isBuiltFrom_of_ofClass h).methods
  obtain ⟨ks, hks, hkdeclared, rfl⟩ := MethodDeclaration.constructorsOf_eq_ok hconstructors
  obtain ⟨ps, hps, hpdeclared, hall⟩ :=
    MethodDeclaration.declareEach_eq_ok (c := c) .method (fun _ => rfl) hmethods
  refine ⟨ks ++ ps, ?_, fun p hp => ?_, ?_⟩
  · rw [List.map_append, hks, hps, Source.Class.members]
  · exact (List.mem_append.1 hp).elim (hkdeclared p) (hpdeclared p)
  · rw [hall, MethodDeclaration.addEach_append]

end HostBridge
