import HostBridge.Declaration.Overload
import HostBridge.Declaration.Tree
import HostBridge.Proofs.TypeReference.Marks

/-!
# The marks of declarations

The type references of a declaration tree are those of its annotations, bounds, supertypes, fields,
arguments and results, of the types of the file and of all types nested in them. `mapFlags` rewrites
the marks of all of these, at every depth, and keeps everything else.

* `DeclarationTree.withoutRawMarks` — a tree that has forgotten which raw uses are not to be
  reported;
* `DeclarationTree.overloads_mapFlags` — marks do not matter to which overloads a tree has.

What the builder does with declarations that it has built is independent of marks as well: to choose
among the overloads of a method, `addWithVariants_mapFlags`, and to attach a type to the one that
encloses it, `attach_mapFlags`.
-/

namespace HostBridge

variable {f : ReferenceFlags → ReferenceFlags}

/-! ### Annotations and members -/

/-- Rewrites the marks of a class in the value of a member. -/
def MemberValue.mapFlags (f : ReferenceFlags → ReferenceFlags) : MemberValue → MemberValue
  | .classLiteral stop type => .classLiteral stop (type.mapFlags f)
  | .stringLiteral literal => .stringLiteral literal
  | .arrayInitializer elements => .arrayInitializer elements

def Annotation.mapFlags (f : ReferenceFlags → ReferenceFlags) (a : Annotation) : Annotation :=
  { a with value := a.value.map (·.mapFlags f), type := a.type.mapFlags f }

def TypeParameter.mapFlags (f : ReferenceFlags → ReferenceFlags) (p : TypeParameter) :
    TypeParameter :=
  { p with type := p.type.map (·.mapFlags f), bounds := p.bounds.map (·.mapFlags f) }

def Argument.mapFlags (f : ReferenceFlags → ReferenceFlags) (a : Argument) : Argument :=
  { a with type := a.type.mapFlags f }

/-- Rewrites the marks of the type of the result. -/
def MethodKind.mapFlags (f : ReferenceFlags → ReferenceFlags) : MethodKind → MethodKind
  | .method returnType => .method (returnType.mapFlags f)
  | .constructor isDefault => .constructor isDefault

def MethodDeclaration.mapFlags (f : ReferenceFlags → ReferenceFlags) (m : MethodDeclaration) :
    MethodDeclaration :=
  { m with
    kind := m.kind.mapFlags f
    arguments := m.arguments.map (·.mapFlags f)
    annotations := m.annotations.map (·.mapFlags f) }

def FieldDeclaration.mapFlags (f : ReferenceFlags → ReferenceFlags) (d : FieldDeclaration) :
    FieldDeclaration :=
  { d with type := d.type.mapFlags f, annotations := d.annotations.map (·.mapFlags f) }

/-! ### Types and trees -/

def TypeContent.mapFlags (f : ReferenceFlags → ReferenceFlags) (t : TypeContent) : TypeContent :=
  { t with
    annotations := t.annotations.map (·.mapFlags f)
    typeParameters := t.typeParameters.map (·.mapFlags f)
    superClass := t.superClass.map (·.mapFlags f)
    superInterfaces := t.superInterfaces.map (·.mapFlags f)
    fields := t.fields.map (·.mapFlags f)
    methods := t.methods.map (·.mapFlags f) }

namespace TypeDeclaration

mutual

/-- Rewrites the marks of a type and of the types nested in it. -/
def mapFlags (f : ReferenceFlags → ReferenceFlags) : TypeDeclaration → TypeDeclaration
  | ⟨content, memberTypes, binding⟩ => ⟨content.mapFlags f, mapFlagsAll f memberTypes, binding⟩

/-- Rewrites the marks of the types of a forest. -/
def mapFlagsAll (f : ReferenceFlags → ReferenceFlags) :
    List TypeDeclaration → List TypeDeclaration
  | [] => []
  | t :: ts => t.mapFlags f :: mapFlagsAll f ts

end

theorem mapFlagsAll_eq_map (ts : List TypeDeclaration) :
    mapFlagsAll f ts = ts.map (mapFlags f) := by
  induction ts with
  | nil => rw [mapFlagsAll, List.map_nil]
  | cons t ts ih => rw [mapFlagsAll, List.map_cons, ih]

theorem mapFlags_eq (t : TypeDeclaration) :
    t.mapFlags f = ⟨t.content.mapFlags f, t.memberTypes.map (mapFlags f), t.binding⟩ := by
  cases t
  rw [mapFlags, mapFlagsAll_eq_map]

end TypeDeclaration

namespace DeclarationTree

def mapFlags (f : ReferenceFlags → ReferenceFlags) (t : DeclarationTree) : DeclarationTree :=
  { t with types := t.types.map (·.mapFlags f) }

/-- The tree without the marks of raw uses, on no reference at any depth. -/
def withoutRawMarks (t : DeclarationTree) : DeclarationTree := t.mapFlags .withoutRawMark

/-- What tells the methods and constructors of a file apart: for each type, depth first, the names
and the names of the types of their arguments. -/
def overloads (t : DeclarationTree) : List (List (String × List String)) :=
  t.walk.map fun d => d.content.methods.map fun m => (m.selector, m.argumentTypeNames)

end DeclarationTree

/-! ### Rewriting marks to themselves -/

@[simp] theorem MemberValue.mapFlags_id (v : MemberValue) : v.mapFlags id = v := by
  cases v <;> simp [mapFlags]

@[simp] theorem Annotation.mapFlags_id (a : Annotation) : a.mapFlags id = a := by
  simp [mapFlags]

@[simp] theorem TypeParameter.mapFlags_id (p : TypeParameter) : p.mapFlags id = p := by
  simp [mapFlags]

@[simp] theorem Argument.mapFlags_id (a : Argument) : a.mapFlags id = a := by
  simp [mapFlags]

@[simp] theorem MethodKind.mapFlags_id (k : MethodKind) : k.mapFlags id = k := by
  cases k <;> simp [mapFlags]

@[simp] theorem MethodDeclaration.mapFlags_id (m : MethodDeclaration) : m.mapFlags id = m := by
  simp [mapFlags]

@[simp] theorem FieldDeclaration.mapFlags_id (d : FieldDeclaration) : d.mapFlags id = d := by
  simp [mapFlags]

@[simp] theorem TypeContent.mapFlags_id (t : TypeContent) : t.mapFlags id = t := by
  simp [mapFlags]

namespace TypeDeclaration

mutual

@[simp] theorem mapFlags_id : (t : TypeDeclaration) → t.mapFlags id = t
  | ⟨content, memberTypes, _⟩ => by
    rw [mapFlags, TypeContent.mapFlags_id content, mapFlagsAll_id memberTypes]

theorem mapFlagsAll_id : (ts : List TypeDeclaration) → mapFlagsAll id ts = ts
  | [] => by rw [mapFlagsAll]
  | t :: ts => by rw [mapFlagsAll, mapFlags_id t, mapFlagsAll_id ts]

end

end TypeDeclaration

/-- No part of a tree is dropped by rewriting its marks. -/
@[simp] theorem DeclarationTree.mapFlags_id (t : DeclarationTree) : t.mapFlags id = t := by
  simp [mapFlags]

/-! ### Overloads -/

namespace MethodDeclaration

@[simp] theorem selector_mapFlags (m : MethodDeclaration) :
    (m.mapFlags f).selector = m.selector := rfl

@[simp] theorem argumentTypeNames_mapFlags (m : MethodDeclaration) :
    (m.mapFlags f).argumentTypeNames = m.argumentTypeNames := by
  simp [argumentTypeNames, mapFlags, Argument.mapFlags, Function.comp_def]

@[simp] theorem clashesWith_mapFlags (m m' : MethodDeclaration) :
    (m.mapFlags f).clashesWith (m'.mapFlags f) = m.clashesWith m' := by
  rw [clashesWith, clashesWith, selector_mapFlags, selector_mapFlags, argumentTypeNames_mapFlags,
    argumentTypeNames_mapFlags]

end MethodDeclaration

theorem droppingLast_map {α β : Type} (g : α → β) (p : β → Bool) (xs : List α) :
    droppingLast p (xs.map g) = (droppingLast (fun x => p (g x)) xs).map (List.map g) := by
  induction xs with
  | nil => rfl
  | cons x xs ih =>
    rw [List.map_cons, droppingLast, ih, droppingLast, List.map_append]
    congr 1
    · rw [List.map_map, List.map_map]
      rfl
    · cases hx : p (g x)
      · rfl
      · simp only [if_true, List.map_cons, List.map_nil, List.filter_map]
        rfl

theorem variants_map (g : Argument → Argument) (parameters : List Source.Parameter)
    (arguments : List Argument) :
    variants parameters (arguments.map g) = (variants parameters arguments).map (List.map g) := by
  unfold variants
  rw [List.zip_map_right, droppingLast_map, List.map_map, List.map_map]
  -- whether a parameter has a default value is not a matter of the argument beside it
  refine List.map_congr_left fun v _ => ?_
  rw [Function.comp_apply, Function.comp_apply, List.map_map, List.map_map]
  rfl

theorem addUnlessClashing_mapFlags (declared : List MethodDeclaration) (m : MethodDeclaration) :
    addUnlessClashing (declared.map (·.mapFlags f)) (m.mapFlags f) =
      (addUnlessClashing declared m).map (·.mapFlags f) := by
  have hany : (declared.map (·.mapFlags f)).any (·.clashesWith (m.mapFlags f)) =
      declared.any (·.clashesWith m) := by
    rw [List.any_map]
    simp [Function.comp_def]
  rw [addUnlessClashing, addUnlessClashing, hany]
  split
  · rfl
  · rw [List.map_append, List.map_singleton]

/-- **Which overloads are kept does not depend on marks.** -/
theorem addWithVariants_mapFlags (method : Source.Method) (m : MethodDeclaration)
    (declared : List MethodDeclaration) :
    addWithVariants method (m.mapFlags f) (declared.map (·.mapFlags f)) =
      (addWithVariants method m declared).map (·.mapFlags f) := by
  unfold addWithVariants
  split
  · have hvariants : variants method.parameters (m.mapFlags f).arguments =
        (variants method.parameters m.arguments).map (List.map (·.mapFlags f)) :=
      variants_map _ _ _
    rw [hvariants]
    -- the declarations are added one after the other
    generalize variants method.parameters m.arguments = vs
    induction vs generalizing declared with
    | nil => rfl
    | cons v vs ih =>
      rw [List.map_cons, List.foldl_cons, List.foldl_cons, ← ih, ← addUnlessClashing_mapFlags]
      rfl
  · rw [List.map_append, List.map_singleton]

/-! ### Nested types -/

/-- **Where a type is attached does not depend on marks.** -/
theorem attach_mapFlags (types : List TypeDeclaration) (path : List Nat) (new : TypeDeclaration) :
    attach (types.map (·.mapFlags f)) path (new.mapFlags f) =
      (attach types path new).map (Prod.map (List.map (·.mapFlags f)) id) := by
  induction path generalizing types with
  | nil => simp [attach]
  | cons i path ih =>
    rw [attach, attach, List.getElem?_map]
    cases types[i]? with
    | none => rfl
    | some t =>
      dsimp only [Option.map_some]
      rw [TypeDeclaration.mapFlags_eq, ih, Option.map_map, Option.map_map]
      refine congrArg (Option.map · (attach t.memberTypes path new)) (funext fun attached => ?_)
      -- the address stays, and the type with the new one in it stays at its place
      refine Prod.ext ?_ rfl
      change _ = (types.set i { t with memberTypes := attached.1 }).map (·.mapFlags f)
      rw [List.map_set, TypeDeclaration.mapFlags_eq]
      rfl

namespace TypeDeclaration

mutual

theorem walk_mapFlags : (t : TypeDeclaration) → (t.mapFlags f).walk = t.walk.map (mapFlags f)
  | ⟨content, memberTypes, binding⟩ => by
    rw [mapFlags, walk, walk, walkAll_mapFlagsAll memberTypes, List.map_cons, mapFlags]

theorem walkAll_mapFlagsAll :
    (ts : List TypeDeclaration) → walkAll (mapFlagsAll f ts) = (walkAll ts).map (mapFlags f)
  | [] => by rw [mapFlagsAll, walkAll, List.map_nil]
  | t :: ts => by
    rw [mapFlagsAll, walkAll, walkAll, walk_mapFlags t, walkAll_mapFlagsAll ts, List.map_append]

end

end TypeDeclaration

theorem DeclarationTree.overloads_mapFlags (t : DeclarationTree) :
    (t.mapFlags f).overloads = t.overloads := by
  have hwalk : (t.mapFlags f).walk = t.walk.map (·.mapFlags f) := by
    rw [walk, mapFlags, ← TypeDeclaration.mapFlagsAll_eq_map, TypeDeclaration.walkAll_mapFlagsAll]
    rfl
  rw [overloads, hwalk, List.map_map]
  refine List.map_congr_left fun d _ => ?_
  rw [Function.comp_apply, TypeDeclaration.mapFlags_eq]
  simp [TypeContent.mapFlags, Function.comp_def]

end HostBridge
