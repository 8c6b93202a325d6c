import HostBridge.Declaration.Build
import HostBridge.Proofs.Declaration.Marks

/-!
# Checks do not change what is built

Two options choose checks that run while a module is translated. One of them makes the builder fail
on the impossible range of a plain reference, the other one decides which raw uses are marked as not
to be reported. The rest of the translation does not look at them:

* `DeclarationTree.build_options` — a module that passes the check of references is built to the
  same tree without it, and one that fails without the check fails with it; with or without the check
  of raw types building fails alike, or gives trees that differ in the marks of raw uses only.

Both are cases of one statement about two runs of the builder. Options `o'` *loosen* `o` up to a
rewriting of marks, `Options.Loosens`, if they check no more references and mark raw uses alike once
the marks are rewritten. Then each step of the translation under `o'` *accords* with the same step
under `o`, `Accords`: it fails with the same fault, or it succeeds with the same result up to marks,
or it is free to do anything because the step under `o` has failed. `Accords.bind` carries this from
step to step, so the order of faults needs no attention.
-/

namespace HostBridge

/-! ### Two runs, side by side -/

/-- **According.** How the second of two runs compares with the first one, where results count only
by what `g` makes of them. If the second run may be `lenient` there is nothing to say about it after
a fault of the first one. -/
inductive Accords {α β : Type} (lenient : Prop) (g : α → β) : Except Fault α → Except Fault α → Prop
  | ok {a a' : α} (h : g a = g a') : Accords lenient g (.ok a) (.ok a')
  | error (fault : Fault) : Accords lenient g (.error fault) (.error fault)
  | free (h : lenient) (fault : Fault) (x : Except Fault α) : Accords lenient g (.error fault) x

namespace Accords

variable {α β γ δ : Type} {lenient : Prop} {g : α → β} {k : γ → δ}

theorem refl (x : Except Fault α) : Accords lenient g x x := by
  cases x with
  | error fault => exact error fault
  | ok a => exact ok rfl

theorem bind {x x' : Except Fault α} {F F' : α → Except Fault γ} (hx : Accords lenient g x x')
    (hF : ∀ a a', g a = g a' → Accords lenient k (F a) (F' a')) :
    Accords lenient k (x >>= F) (x' >>= F') := by
  cases hx with
  | ok h => exact hF _ _ h
  | error fault => exact error fault
  | free h fault x' => exact free h fault _

theorem map {x x' : Except Fault α} {F : α → γ} (hx : Accords lenient g x x')
    (hF : ∀ a a', g a = g a' → k (F a) = k (F a')) :
    Accords lenient k (x.map F) (x'.map F) := by
  cases hx with
  | ok h => exact ok (hF _ _ h)
  | error fault => exact error fault
  | free h fault x' => exact free h fault _

/-- A step for each element of a list. -/
theorem buildEach {F F' : γ → Except Fault α} (hF : ∀ c, Accords lenient g (F c) (F' c))
    (cs : List γ) : Accords lenient (List.map g) (buildEach F cs) (buildEach F' cs) := by
  induction cs with
  | nil => exact refl _
  | cons c cs ih =>
    rw [HostBridge.buildEach, HostBridge.buildEach]
    refine (hF c).bind fun a a' ha => ih.bind fun as as' has => ok ?_
    rw [List.map_cons, List.map_cons, ha, has]

/-- Where the first run succeeds the second one does, with the same result. -/
theorem of_ok {a : α} {x : Except Fault α} (h : Accords lenient g (.ok a) x) :
    ∃ a', x = .ok a' ∧ g a = g a' := by
  cases h with
  | ok h => exact ⟨_, rfl, h⟩

/-- Where the second run fails the first one does. -/
theorem of_error {fault : Fault} {x : Except Fault α} (h : Accords lenient g x (.error fault)) :
    ∃ fault', x = .error fault' := by
  cases h with
  | error => exact ⟨fault, rfl⟩
  | free h fault' => exact ⟨fault', rfl⟩

/-- Without leniency the runs fail alike, or succeed alike. -/
theorem fail_or_succeed {x x' : Except Fault α} (h : Accords False g x x') :
    (∃ fault, x = .error fault ∧ x' = .error fault) ∨
      ∃ a a', x = .ok a ∧ x' = .ok a' ∧ g a = g a' := by
  cases h with
  | ok h => exact .inr ⟨_, _, rfl, rfl, h⟩
  | error fault => exact .inl ⟨fault, rfl, rfl⟩
  | free h => exact h.elim

end Accords

/-- **Loosening.** The options `o'` do not differ from `o` in what is built up to the rewriting `f`
of marks. If they may be `lenient` they may leave out the check of references. -/
structure Options.Loosens (f : ReferenceFlags → ReferenceFlags) (lenient : Prop) (o o' : Options) :
    Prop where
  spares : ReferenceFlags.Spares f
  /-- A raw use is marked alike. -/
  rawMark : ∀ flags : ReferenceFlags,
    f { flags with ignoreRawTypeCheck := !o.checkGenerics } =
      f { flags with ignoreRawTypeCheck := !o'.checkGenerics }
  checks : o.checkTypeReferences = o'.checkTypeReferences ∨
    lenient ∧ o'.checkTypeReferences = false

variable {f : ReferenceFlags → ReferenceFlags} {lenient : Prop} {o o' : Options}

/-! ### Type references -/

namespace TypeReference

theorem start_eq_of_mapFlags_eq {r r' : TypeReference} (h : r.mapFlags f = r'.mapFlags f) :
    r.start = r'.start := by
  rw [← start_mapFlags (f := f), h, start_mapFlags]

theorem stop_eq_of_mapFlags_eq {r r' : TypeReference} (h : r.mapFlags f = r'.mapFlags f) :
    r.stop = r'.stop := by
  rw [← stop_mapFlags (f := f), h, stop_mapFlags]

theorem isEmpty_eq_of_map_eq {α β : Type} {g : α → β} {as as' : List α}
    (h : as.map g = as'.map g) : as.isEmpty = as'.isEmpty := by
  rw [← List.isEmpty_map (f := g), h, List.isEmpty_map]

section

variable (h : Options.Loosens f lenient o o')

include h

theorem mapFlags_ignoringRawTypes (r : TypeReference) :
    (r.ignoringRawTypes !o.checkGenerics).mapFlags f =
      (r.ignoringRawTypes !o'.checkGenerics).mapFlags f := by
  rw [mapFlags_eq, mapFlags_eq]
  exact congrArg (mk _ r.start r.stop) (h.rawMark r.flags)

theorem ofSimpleName_accords (name : String) (start stop : Int) {as as' : List TypeReference}
    (has : as.map (mapFlags f) = as'.map (mapFlags f)) :
    Accords lenient (mapFlags f) (ofSimpleName o name start stop as)
      (ofSimpleName o' name start stop as') := by
  unfold ofSimpleName
  rw [isEmpty_eq_of_map_eq has]
  split
  · -- a plain reference: the only place where a range is checked
    dsimp only
    have hmarks := mapFlags_ignoringRawTypes h
      (covering (.single name (.spanning start (stop - 1))) (.spanning start (stop - 1)))
    rcases h.checks with hsame | ⟨hlenient, hoff⟩
    · rw [hsame]
      split
      · exact .error _
      · exact .ok hmarks
    · rw [hoff, Bool.false_and, if_neg Bool.false_ne_true]
      split
      · exact .free hlenient _ _
      · exact .ok hmarks
  · refine .ok ?_
    rw [covering, covering, mapFlags, mapFlags, TypeShape.mapFlags, TypeShape.mapFlags,
      mapFlagsAll_eq_map, mapFlagsAll_eq_map, has]

theorem mapFlags_ofQualifiedName (name : String) (start stop : Int) {as as' : List TypeReference}
    (has : as.map (mapFlags f) = as'.map (mapFlags f)) :
    (ofQualifiedName o name start stop as).mapFlags f =
      (ofQualifiedName o' name start stop as').mapFlags f := by
  unfold ofQualifiedName
  dsimp only
  rw [isEmpty_eq_of_map_eq has]
  split
  · exact mapFlags_ignoringRawTypes h _
  · rw [reaching, reaching, mapFlags, mapFlags, TypeShape.mapFlags, TypeShape.mapFlags,
      mapFlagsSegments_eq_map, mapFlagsSegments_eq_map]
    -- the type arguments stand at the last segment, behind others without any
    rw [List.map_append, List.map_append, List.map_singleton, List.map_singleton, Option.map_some,
      Option.map_some, has]

theorem ofName_accords (name : String) (start stop : Int) {as as' : List TypeReference}
    (has : as.map (mapFlags f) = as'.map (mapFlags f)) :
    Accords lenient (mapFlags f) (ofName o name start stop as) (ofName o' name start stop as') := by
  unfold ofName
  split
  · exact .refl _
  · split
    · exact .refl _
    · split
      · exact .refl _
      · split
        · exact .ok (mapFlags_ofQualifiedName h name start stop has)
        · exact ofSimpleName_accords h name start stop has

end

mutual

/-- **A type reference.** The type arguments come first, then the name decides. -/
theorem build_accords (h : Options.Loosens f lenient o o') :
    (d : Source.Descriptor) → Accords lenient (mapFlags f) (build o d) (build o' d)
  | ⟨name, start, stop, generics, _⟩ => by
    rw [build, build]
    exact (buildArguments_accords h generics).bind fun as as' has =>
      ofName_accords h name (max start 0) (max stop 0) has

theorem buildArguments_accords (h : Options.Loosens f lenient o o') : (gs : List Source.Generic) →
    Accords lenient (List.map (mapFlags f)) (buildArguments o gs) (buildArguments o' gs)
  | [] => by
    rw [buildArguments, buildArguments]
    exact .refl _
  | g :: gs => by
    rw [buildArguments, buildArguments]
    refine (buildArgument_accords h g).bind fun a a' ha =>
      (buildArguments_accords h gs).bind fun rest rest' hrest => .ok ?_
    rw [List.map_append, List.map_append, ← Option.toList_map, ← Option.toList_map, ha, hrest]

theorem buildArgument_accords (h : Options.Loosens f lenient o o') : (g : Source.Generic) →
    Accords lenient (Option.map (mapFlags f)) (buildArgument o g) (buildArgument o' g)
  | ⟨_, _, true, some (upper :: _), _, start, _⟩ => by
    rw [buildArgument, buildArgument]
    refine (build_accords h upper).bind fun bound bound' hbound => .ok ?_
    rw [Option.map_some, Option.map_some, boundedWildcard, boundedWildcard, mapFlags, mapFlags,
      TypeShape.mapFlags, TypeShape.mapFlags, hbound, stop_eq_of_mapFlags_eq hbound]
  | ⟨_, _, true, none, some lower, start, _⟩ | ⟨_, _, true, some [], some lower, start, _⟩ => by
    simp only [buildArgument]
    refine (build_accords h lower).bind fun bound bound' hbound => .ok ?_
    rw [Option.map_some, Option.map_some, boundedWildcard, boundedWildcard, mapFlags, mapFlags,
      TypeShape.mapFlags, TypeShape.mapFlags, hbound, stop_eq_of_mapFlags_eq hbound]
  | ⟨_, _, true, none, none, _, _⟩ | ⟨_, _, true, some [], none, _, _⟩ => by
    simp only [buildArgument]
    exact .refl _
  | ⟨_, type, false, _, _, _, _⟩ => by
    rw [buildArgument, buildArgument]
    split
    · exact .refl _
    · refine (build_accords h type).bind fun r r' hr => .ok ?_
      rw [Option.map_some, Option.map_some, hr]

end

end TypeReference

section

variable (h : Options.Loosens f lenient o o')

include h

/-! ### Annotations -/

namespace Annotation

theorem build_accords (a : Source.AnnotationUse) :
    Accords lenient (Option.map (mapFlags f)) (build o a) (build o' a) := by
  -- whatever its shape, an annotation is made from its type, which is built first
  have withType (stop : Int) (rest : TypeReference → Annotation)
      (hrest : ∀ t t' : TypeReference, t.mapFlags f = t'.mapFlags f →
        (rest t).mapFlags f = (rest t').mapFlags f) :
      Accords lenient (Option.map (mapFlags f))
        (do let type ← TypeReference.build o a.type
            return some (rest (type.withRange a.start stop)))
        (do let type ← TypeReference.build o' a.type
            return some (rest (type.withRange a.start stop))) := by
    refine (TypeReference.build_accords h a.type).bind fun t t' ht => .ok ?_
    rw [Option.map_some, Option.map_some]
    refine congrArg some (hrest _ _ ?_)
    rw [TypeReference.mapFlags_withRange, TypeReference.mapFlags_withRange, ht]
  unfold build
  cases AnnotationShape.classify a with
  | unsupported => exact .refl _
  | marker | testMarker =>
    refine withType a.stop (fun type => ⟨none, type, a.start, a.stop⟩) fun t t' ht => ?_
    rw [mapFlags, mapFlags, ht]
  | classLiteral object stop =>
    refine withType a.stop (fun type => ⟨some (.classLiteral stop _), type, a.start, _⟩)
      fun t t' ht => ?_
    rw [mapFlags, mapFlags, ht]
  | identifierAsClass name stop =>
    refine withType a.stop (fun type =>
      ⟨some (.classLiteral stop (.ofIdentifier name type.start type.stop)), type, a.start, _⟩)
      fun t t' ht => ?_
    rw [mapFlags, mapFlags, ht, TypeReference.start_eq_of_mapFlags_eq ht,
      TypeReference.stop_eq_of_mapFlags_eq ht]
  | stringLiteral value start stop =>
    refine withType (a.stop - 1) (fun type =>
      ⟨some (.stringLiteral (literal (value, start, stop))), type, a.start, textStop a value⟩)
      fun t t' ht => ?_
    rw [mapFlags, mapFlags, ht]
  | stringList elements =>
    -- without elements the annotation ends with its type
    let rest (type : TypeReference) : Annotation :=
      ⟨some (.arrayInitializer (elements.map literal)), type, a.start,
        (elements.getLast?.map fun element => textStop a element.1).getD type.stop⟩
    have hrest (t t' : TypeReference) (ht : t.mapFlags f = t'.mapFlags f) :
        (rest t).mapFlags f = (rest t').mapFlags f := by
      have hstop := TypeReference.stop_eq_of_mapFlags_eq ht
      simp only [rest, mapFlags, ht, hstop]
    exact withType (a.stop - 1) rest hrest

theorem buildAll_accords (as : List Source.AnnotationUse) :
    Accords lenient (List.map (mapFlags f)) (buildAll o as) (buildAll o' as) := by
  induction as with
  | nil => exact .refl _
  | cons a as ih =>
    rw [buildAll, buildAll]
    refine (build_accords h a).bind fun b b' hb => ih.bind fun rest rest' hrest => .ok ?_
    rw [List.map_append, List.map_append, ← Option.toList_map, ← Option.toList_map, hb, hrest]

end Annotation

/-! ### Members -/

theorem TypeParameter.ofGeneric_accords (g : Source.Generic) :
    Accords lenient (mapFlags f) (ofGeneric o g) (ofGeneric o' g) := by
  have hsuper : TypeReference.mapFlags f ∘ TypeReference.asSuperType =
      TypeReference.asSuperType ∘ TypeReference.mapFlags f :=
    funext (TypeReference.mapFlags_asSuperType h.spares)
  unfold ofGeneric
  split
  · exact .refl _
  · refine (TypeReference.build_accords h _).bind fun t t' ht =>
      (Accords.buildEach (TypeReference.build_accords h) _).bind fun bs bs' hbs => .ok ?_
    rw [mapFlags, mapFlags]
    simp only [Option.map_some, ht, List.map_map]
    rw [hsuper, ← List.map_map, hbs, List.map_map]

namespace Argument

theorem ofParameter_accords (p : Source.Parameter) :
    Accords lenient (mapFlags f) (ofParameter o p) (ofParameter o' p) := by
  unfold ofParameter
  refine (TypeReference.build_accords h p.type).bind fun t t' ht => .ok ?_
  simp only [mapFlags, ht]

omit h in
/-- Marking an argument of a list, up to marks. -/
theorem map_modify_asVarArgs (hf : ReferenceFlags.Spares f) (as : List Argument) (i : Nat) :
    (as.modify i asVarArgs).map (mapFlags f) = (as.map (mapFlags f)).modify i asVarArgs := by
  have hcomm (a : Argument) : a.asVarArgs.mapFlags f = (a.mapFlags f).asVarArgs := by
    simp only [asVarArgs, mapFlags, TypeReference.mapFlags_asVarArgs hf]
  apply List.ext_getElem?
  intro j
  rw [List.getElem?_map, List.getElem?_modify, List.getElem?_modify, List.getElem?_map]
  cases as[j]? with
  | none => rfl
  | some a =>
    simp only [Option.map_eq_map, Option.map_some]
    split
    · rw [hcomm]
    · rfl

theorem ofParameters_accords (parameters : List Source.Parameter) :
    Accords lenient (List.map (mapFlags f)) (ofParameters o parameters)
      (ofParameters o' parameters) := by
  unfold ofParameters
  refine (Accords.buildEach (ofParameter_accords h) parameters).bind fun as as' has => ?_
  have hlength : as.length = as'.length := by
    rw [← List.length_map (mapFlags f), has, List.length_map]
  split
  · refine .ok ?_
    rw [map_modify_asVarArgs h.spares, map_modify_asVarArgs h.spares, has, hlength]
  · exact .ok has

end Argument

theorem FieldDeclaration.ofField_accords (comments : List Source.Comment) (d : Source.Field) :
    Accords lenient (mapFlags f) (ofField o comments d) (ofField o' comments d) := by
  have hannotations := Annotation.buildAll_accords h d.annotations
  unfold ofField
  refine (TypeReference.build_accords h d.type).bind fun t t' ht =>
    hannotations.bind fun as as' has => .ok ?_
  simp only [mapFlags, ht, has]

namespace MethodDeclaration

theorem ofConstructor_accords (comments : List Source.Comment) (c : Source.Class)
    (selector : String) (m : Source.Method) :
    Accords lenient (mapFlags f) (ofConstructor o comments c selector m)
      (ofConstructor o' comments c selector m) := by
  have hannotations := Annotation.buildAll_accords h m.annotations
  unfold ofConstructor
  refine (Argument.ofParameters_accords h m.parameters).bind fun ps ps' hps =>
    hannotations.bind fun as as' has => .ok ?_
  simp only [mapFlags, hps, has]

theorem argumentsOf_accords (m : Source.Method) :
    Accords lenient (List.map (Argument.mapFlags f)) (argumentsOf o m) (argumentsOf o' m) := by
  unfold argumentsOf
  refine (Argument.ofParameters_accords h m.parameters).bind fun as as' has => ?_
  split
  · -- the entry point of a script: the type of the argument is replaced
    refine .ok ?_
    cases as with
    | nil => rw [← List.map_eq_nil_iff.1 has.symm]
    | cons a as =>
      obtain ⟨b, bs, rfl, hb, hbs⟩ := List.map_eq_cons_iff.1 has.symm
      simp only [Argument.mapFlags, Argument.mk.injEq] at hb
      simp only [List.modifyHead_cons, List.map_cons, Argument.mapFlags, hb, hbs]
  · exact .ok has

theorem returnTypeOf_accords (m : Source.Method) :
    Accords lenient (TypeReference.mapFlags f) (returnTypeOf o m) (returnTypeOf o' m) := by
  unfold returnTypeOf
  split
  · exact .refl _
  · exact TypeReference.build_accords h m.returnType

theorem ofMethod_accords (comments : List Source.Comment) (m : Source.Method) :
    Accords lenient (mapFlags f) (ofMethod o comments m) (ofMethod o' comments m) := by
  have hannotations := Annotation.buildAll_accords h m.annotations
  unfold ofMethod
  refine (argumentsOf_accords h m).bind fun ps ps' hps =>
    (returnTypeOf_accords h m).bind fun t t' ht =>
      hannotations.bind fun as as' has => .ok ?_
  simp only [mapFlags, MethodKind.mapFlags, hps, ht, has]

omit h in
/-- **Declaring methods one after the other.** Those kept so far agree up to marks, so the overloads
of the next one are kept alike. -/
theorem declareEach_accords {declare declare' : Source.Method → Except Fault MethodDeclaration}
    (hdeclare : ∀ m, Accords lenient (mapFlags f) (declare m) (declare' m))
    (ms : List Source.Method) {declared declared' : List MethodDeclaration}
    (hdeclared : declared.map (mapFlags f) = declared'.map (mapFlags f)) :
    Accords lenient (List.map (mapFlags f)) (declareEach declare ms declared)
      (declareEach declare' ms declared') := by
  induction ms generalizing declared declared' with
  | nil => exact .ok hdeclared
  | cons m ms ih =>
    rw [declareEach, declareEach]
    refine (hdeclare m).bind fun d d' hd => ih ?_
    rw [← addWithVariants_mapFlags, hd, hdeclared, addWithVariants_mapFlags]

theorem constructorsOf_accords (comments : List Source.Comment) (c : Source.Class)
    (selector : String) :
    Accords lenient (List.map (mapFlags f)) (constructorsOf o comments c selector)
      (constructorsOf o' comments c selector) := by
  unfold constructorsOf
  split
  · exact .refl _
  · exact declareEach_accords (ofConstructor_accords h comments c selector) _ rfl

end MethodDeclaration

/-! ### Types -/

omit h in
/-- The class that is extended, if one is written. -/
theorem superClass_accords (h : Options.Loosens f lenient o o') (d? : Option Source.Descriptor) :
    Accords lenient (Option.map (TypeReference.mapFlags f))
      (match d? with
        | none => .ok none
        | some d => (TypeReference.build o d).map some)
      (match d? with
        | none => .ok none
        | some d => (TypeReference.build o' d).map some) := by
  cases d? with
  | none => exact .refl _
  | some d => exact (TypeReference.build_accords h d).map fun r r' hr => congrArg some hr

/-- **A type.** The parts of a class are built one after the other. -/
theorem TypeContent.ofClass_accords (comments : List Source.Comment) (c : Source.Class) :
    Accords lenient (mapFlags f) (ofClass o comments c) (ofClass o' comments c) := by
  have hannotations := Annotation.buildAll_accords h c.annotations
  have htypeParameters := Accords.buildEach (TypeParameter.ofGeneric_accords h) c.generics
  have hsuper := superClass_accords h (writtenSuperClass? c)
  have hinterfaces := Accords.buildEach (TypeReference.build_accords h) c.interfaces
  have hfields := Accords.buildEach (FieldDeclaration.ofField_accords h comments)
    (c.fields.filter fun d => !d.isSynthetic)
  have hconstructors := MethodDeclaration.constructorsOf_accords h comments c (declaredName c)
  have hmethod := MethodDeclaration.ofMethod_accords h comments
  unfold ofClass
  refine hannotations.bind fun as as' has => htypeParameters.bind fun ps ps' hps => ?_
  -- what comes after it does not depend on whether a class to extend is written
  cases hwritten : writtenSuperClass? c <;> rw [hwritten] at hsuper
  all_goals
    refine hsuper.bind fun s s' hs => hinterfaces.bind fun is is' his =>
      hfields.bind fun fs fs' hfs => hconstructors.bind fun ks ks' hks =>
        (MethodDeclaration.declareEach_accords hmethod _ hks).bind fun ms ms' hms => .ok ?_
    simp only [mapFlags, has, hps, hs, his, hfs, hms]

namespace Forest

/-- A forest under construction, with the marks of its types rewritten. -/
def mapFlags (f : ReferenceFlags → ReferenceFlags) (F : Forest) : Forest :=
  { F with types := F.types.map (·.mapFlags f) }

theorem addClass_accords (comments : List Source.Comment) (c : Source.Class) {F F' : Forest}
    (hF : F.mapFlags f = F'.mapFlags f) :
    Accords lenient (mapFlags f) (F.addClass o comments c) (F'.addClass o' comments c) := by
  have htypes : F.types.map (·.mapFlags f) = F'.types.map (·.mapFlags f) := congrArg types hF
  have haddresses : F.addresses = F'.addresses := (congrArg addresses hF :)
  have howner : F.ownerAddress? c = F'.ownerAddress? c := by
    rw [ownerAddress?, ownerAddress?, haddresses]
  unfold addClass
  refine (TypeContent.ofClass_accords h comments c).bind fun content content' hcontent => ?_
  have hleaf : (TypeDeclaration.leaf content).mapFlags f =
      (TypeDeclaration.leaf content').mapFlags f := by
    rw [TypeDeclaration.mapFlags_eq, TypeDeclaration.mapFlags_eq]
    exact congrArg (TypeDeclaration.mk · [] none) hcontent
  rw [howner]
  cases F'.ownerAddress? c with
  | none => exact .error _
  | some path =>
    -- the type is attached at one address in both forests, or at none
    have hattach :
        (attach F.types path (.leaf content)).map (Prod.map (List.map (·.mapFlags f)) id) =
          (attach F'.types path (.leaf content')).map
            (Prod.map (List.map (·.mapFlags f)) id) := by
      rw [← attach_mapFlags, ← attach_mapFlags, htypes, hleaf]
    dsimp only [Option.bind_some]
    cases hattached : attach F.types path (.leaf content) with
    | none =>
      rw [hattached, Option.map_none] at hattach
      rw [Option.map_eq_none_iff.1 hattach.symm]
      exact .error _
    | some attached =>
      rw [hattached, Option.map_some] at hattach
      obtain ⟨attached', hattached', heq⟩ := Option.map_eq_some_iff.1 hattach.symm
      rw [hattached']
      refine .ok ?_
      obtain ⟨htypes', haddress⟩ := Prod.mk.inj heq
      rw [mapFlags, mapFlags]
      dsimp only
      rw [htypes', haddresses, show attached'.2 = attached.2 from haddress]

theorem addClasses_accords (comments : List Source.Comment) (cs : List Source.Class)
    {F F' : Forest} (hF : F.mapFlags f = F'.mapFlags f) :
    Accords lenient (mapFlags f) (F.addClasses o comments cs) (F'.addClasses o' comments cs) := by
  induction cs generalizing F F' with
  | nil => exact .ok hF
  | cons c cs ih =>
    rw [addClasses, addClasses]
    exact (addClass_accords h comments c hF).bind fun G G' hG => ih hG

end Forest

theorem DeclarationTree.build_accords (m : Source.Module) :
    Accords lenient (mapFlags f) (build o m) (build o' m) := by
  unfold build
  refine (Forest.addClasses_accords h m.comments _ rfl).bind fun F F' hF => .ok ?_
  have htypes : F.types.map (·.mapFlags f) = F'.types.map (·.mapFlags f) :=
    congrArg Forest.types hF
  rw [mapFlags, mapFlags, htypes]

end

/-! ### The two options -/

/-- Without the check of references there is only less to fail at. -/
theorem Options.loosens_references (o : Options) :
    Loosens id True { o with checkTypeReferences := true }
      { o with checkTypeReferences := false } where
  spares := ReferenceFlags.spares_id
  rawMark _ := rfl
  checks := .inr ⟨trivial, rfl⟩

/-- The check of raw types decides about the mark of raw uses and nothing else. -/
theorem Options.loosens_generics (o : Options) :
    Loosens .withoutRawMark False { o with checkGenerics := true }
      { o with checkGenerics := false } where
  spares := ReferenceFlags.spares_withoutRawMark
  rawMark _ := rfl
  checks := .inl rfl

/-- **Checks do not change what is built.** With the check of references a module is built to the
same tree as without it, or it fails where it might not have; if it fails without the check then it
fails with it. With or without the check of raw types a module fails with the same fault, or it is
built to trees that are equal once the marks of raw uses are forgotten at every depth, and the same
overloads are kept. -/
theorem DeclarationTree.build_options (o : Options) (m : Source.Module) :
    (∀ t, build { o with checkTypeReferences := true } m = .ok t →
      build { o with checkTypeReferences := false } m = .ok t) ∧
    (∀ fault, build { o with checkTypeReferences := false } m = .error fault →
      ∃ fault', build { o with checkTypeReferences := true } m = .error fault') ∧
    ((∃ fault, build { o with checkGenerics := true } m = .error fault ∧
        build { o with checkGenerics := false } m = .error fault) ∨
      ∃ t t', build { o with checkGenerics := true } m = .ok t ∧
        build { o with checkGenerics := false } m = .ok t' ∧
        t.withoutRawMarks = t'.withoutRawMarks ∧ t.overloads = t'.overloads) := by
  have hreferences := build_accords o.loosens_references m
  refine ⟨fun t ht => ?_, fun fault hfault => ?_, ?_⟩
  · rw [ht] at hreferences
    obtain ⟨t', ht', heq⟩ := hreferences.of_ok
    rw [mapFlags_id, mapFlags_id] at heq
    rw [ht', heq]
  · rw [hfault] at hreferences
    exact hreferences.of_error
  · rcases (build_accords o.loosens_generics m).fail_or_succeed with hfail | ⟨t, t', ht, ht', heq⟩
    · exact .inl hfail
    · refine .inr ⟨t, t', ht, ht', heq, ?_⟩
      -- overloads are told apart by names, which marks do not show in
      rw [← overloads_mapFlags (f := .withoutRawMark) t, heq, overloads_mapFlags]

end HostBridge
