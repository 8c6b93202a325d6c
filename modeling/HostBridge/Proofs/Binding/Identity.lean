import HostBridge.Binding.Scope
import HostBridge.Proofs.Declaration.Completeness
import HostBridge.Proofs.Declaration.Members
import HostBridge.Proofs.Text.Dotted

/-!
# The identities of a built tree

Building the scope of a tree gives each type the segments of the package and its *binary name*: the
names of the enclosing types and its own, joined by `$`. For the tree of a module the binary names
follow the nesting of the classes, `Nesting.binaryName`, so that the bound tree is again a forest of
that nesting:

* `Nesting.bindAll_forest` — binding a forest gives each place the identity with its binary name;
* `DeclarationTree.isSegmented_of_build` — the identities of a module are *segmented*: no segment of
  a compound name holds a dot, so the qualified name determines the identity;
* `DeclarationTree.types_bind_cleared` — the identities that a tree had before do not count.
-/

namespace HostBridge

/-! ### Binding a forest -/

namespace TypeDeclaration

theorem bindAll_eq_map (package : List String) (outer : Option String) (ts : List TypeDeclaration) :
    bindAll package outer ts = ts.map (bind package outer) := by
  induction ts with
  | nil => rw [bindAll, List.map_nil]
  | cons t ts ih => rw [bindAll, List.map_cons, ih]

end TypeDeclaration

namespace Nesting

variable (N : Nesting) (name : Nat → String)

/-- The name of a place with the names of its owners in front. -/
def binaryName (i : Nat) : String :=
  match _h : N.owner i with
  | none => name i
  | some j => HostBridge.binaryName (some (binaryName j)) (name i)
termination_by i
decreasing_by exact N.owner_lt _h

theorem binaryName_eq (i : Nat) :
    N.binaryName name i = HostBridge.binaryName ((N.owner i).map (N.binaryName name)) (name i) := by
  rw [binaryName]
  split <;> rename_i h <;> rw [h] <;> rfl

/-- Binary names hold no dot if names hold none. -/
theorem not_mem_binaryName {name : Nat → String} {n : Nat}
    (hname : ∀ i < n, '.' ∉ (name i).toList) :
    ∀ i < n, '.' ∉ (N.binaryName name i).toList := by
  intro i
  induction i using Nat.strongRecOn with
  | ind i ih =>
    intro hi
    rw [binaryName_eq]
    cases howner : N.owner i with
    | none => exact hname i hi
    | some j =>
      have hlt := N.owner_lt howner
      have hj := ih j hlt (by omega)
      simp [HostBridge.binaryName, hj, hname i hi]

/-- **Binding a forest.** Each place gets the identity with its binary name. -/
theorem bindAll_forest (package : List String) (content : Nat → TypeContent)
    (binding : Nat → Option TypeBinding) (n : Nat) :
    ∀ p, TypeDeclaration.bindAll package (p.map (N.binaryName fun i => (content i).name))
        (N.forest content binding n p) =
      N.forest content
        (fun i => some ⟨package ++ [N.binaryName (fun i => (content i).name) i]⟩) n p := by
  -- the names above a place are put together before those below it
  refine N.members_induction n fun p ih => ?_
  rw [TypeDeclaration.bindAll_eq_map, forest_eq, forest_eq, List.map_map]
  refine List.map_congr_left fun i hi => ?_
  have howner : N.owner i = p := ((N.mem_members).1 hi).2
  have hbinary :
      HostBridge.binaryName (p.map (N.binaryName fun i => (content i).name)) (content i).name =
      N.binaryName (fun i => (content i).name) i := by
    rw [binaryName_eq, howner]
  have hmembers := ih i hi
  rw [Option.map_some] at hmembers
  rw [Function.comp_apply, declaration, declaration, TypeDeclaration.bind, hbinary, hmembers]

end Nesting

/-! ### Names of declarations -/

/-- The name of a nested class is what follows the name of the enclosing one and a `$`; if there is
no such thing, it is the simple name. -/
theorem declaredName_eq {c : Source.Class} {outer : String} (houter : c.outer = some outer) :
    (∃ rest, c.simpleName = Dotted.simpleName outer ++ "$" ++ rest ∧ declaredName c = rest) ∨
      declaredName c = c.simpleName := by
  rw [declaredName, houter]
  dsimp only
  split
  · next rest h =>
    refine Or.inl ⟨String.ofList rest, ?_, rfl⟩
    rw [Text.afterPrefix?_eq_some_iff] at h
    apply String.toList_inj.1
    simp [h]
  · exact Or.inr rfl

/-- The name of a declared type holds no dot. -/
theorem not_mem_declaredName (c : Source.Class) : '.' ∉ (declaredName c).toList := by
  have hsimple : '.' ∉ c.simpleName.toList := Dotted.not_mem_simpleName c.name
  cases houter : c.outer with
  | none =>
    rw [declaredName, houter]
    exact hsimple
  | some outer =>
    rcases declaredName_eq houter with ⟨rest, hrest, h⟩ | h
    · -- a dot in the rest would be a dot in the simple name
      rw [h]
      intro hmem
      apply hsimple
      rw [hrest, String.toList_append]
      exact List.mem_append_right _ hmem
    · rw [h]
      exact hsimple

/-! ### Segmented identities -/

namespace TypeBinding

/-- The compound name of an identity is what the dots of its qualified name separate. -/
def IsSegmented (b : TypeBinding) : Prop := b.compoundName = Dotted.split b.qualifiedName

/-- Segmented identities with the same qualified name are the same. -/
theorem IsSegmented.eq {a b : TypeBinding} (ha : a.IsSegmented) (hb : b.IsSegmented)
    (h : a.qualifiedName = b.qualifiedName) : a = b := by
  have hcompound : a.compoundName = b.compoundName := by
    calc a.compoundName = Dotted.split a.qualifiedName := ha
      _ = Dotted.split b.qualifiedName := by rw [h]
      _ = b.compoundName := hb.symm
  cases a
  cases b
  exact congrArg TypeBinding.mk hcompound

theorem isSegmented_append {package : List String} {name : String}
    (hpackage : ∀ s ∈ package, '.' ∉ s.toList) (hname : '.' ∉ name.toList) :
    (⟨package ++ [name]⟩ : TypeBinding).IsSegmented := by
  refine (Dotted.split_join (by simp) fun s hs => ?_).symm
  rcases List.mem_append.1 hs with hs | hs
  · exact hpackage s hs
  · rwa [List.mem_singleton.1 hs]

end TypeBinding

namespace DeclarationTree

variable {o : Options} {m : Source.Module} {t : DeclarationTree}

theorem packageSegments_of_none (hpackage : t.package = m.package.map .ofPackage)
    (hp : m.package = none) :
    t.packageSegments = [] := by
  rw [packageSegments, hpackage, hp]
  rfl

theorem packageSegments_of_some {p : Source.Package}
    (hpackage : t.package = m.package.map .ofPackage) (hp : m.package = some p) :
    t.packageSegments = Dotted.split (Dotted.withoutTrailingDots p.name) := by
  rw [packageSegments, hpackage, hp, Option.map_some, Option.map_some, Option.getD_some]
  unfold ImportReference.ofPackage ImportReference.ofTokens
  dsimp only

/-- The segments of a package hold no dot. -/
theorem not_mem_packageSegments (hpackage : t.package = m.package.map .ofPackage) :
    ∀ s ∈ t.packageSegments, '.' ∉ s.toList := by
  intro s hs
  cases hp : m.package with
  | none =>
    rw [packageSegments_of_none hpackage hp] at hs
    exact absurd hs List.not_mem_nil
  | some p =>
    rw [packageSegments_of_some hpackage hp] at hs
    exact Dotted.not_mem_of_mem_split hs

/-- **A bound tree is a forest of the nesting of its classes.** -/
theorem bind_of_build (ht : build o m = .ok t) :
    ∃ content,
      (∀ i c, m.primaryClasses[i]? = some c →
        TypeContent.ofClass o m.comments c = .ok (content i)) ∧
      t.package = m.package.map .ofPackage ∧
      t.bind.types = (Nesting.ofClasses m.primaryClasses).forest content
        (fun i => some ⟨t.packageSegments ++
          [(Nesting.ofClasses m.primaryClasses).binaryName (fun i => (content i).name) i]⟩)
        m.primaryClasses.length none := by
  obtain ⟨content, hbuilt, hpackage, htypes⟩ := types_of_build ht
  refine ⟨content, hbuilt, hpackage, ?_⟩
  rw [bind, htypes]
  exact Nesting.bindAll_forest _ _ _ _ _ none

/-- The identities of a bound forest are those of its places. -/
theorem mem_bindings_forest {N : Nesting} {content : Nat → TypeContent}
    {binding : Nat → TypeBinding} {n : Nat}
    (htypes : t.types = N.forest content (fun i => some (binding i)) n none) {b : TypeBinding} :
    b ∈ t.bindings ↔ ∃ i < n, b = binding i := by
  rw [bindings, walk, htypes, Nesting.walkAll_forest, List.mem_filterMap]
  constructor
  · rintro ⟨d, hd, hb⟩
    obtain ⟨i, hi, rfl⟩ := List.mem_map.1 hd
    exact ⟨i, List.mem_range.1 ((N.walk_perm_range n).mem_iff.1 hi), (Option.some.inj hb).symm⟩
  · rintro ⟨i, hi, rfl⟩
    exact ⟨_, List.mem_map_of_mem ((N.walk_perm_range n).mem_iff.2 (List.mem_range.2 hi)), rfl⟩

/-- **The identities of a module are segmented.** -/
theorem isSegmented_of_build (ht : build o m = .ok t) : ∀ b ∈ t.bind.bindings, b.IsSegmented := by
  obtain ⟨content, hbuilt, hpackage, htypes⟩ := bind_of_build ht
  intro b hb
  obtain ⟨i, hi, rfl⟩ := (mem_bindings_forest htypes).1 hb
  refine TypeBinding.isSegmented_append (not_mem_packageSegments hpackage) ?_
  refine Nesting.not_mem_binaryName _ (fun i hi => ?_) i hi
  rw [TypeContent.name_of_ofClass (hbuilt i _ (List.getElem?_eq_getElem hi))]
  exact not_mem_declaredName _

end DeclarationTree

/-! ### Trees without identities -/

namespace TypeDeclaration

mutual

/-- The type without its identity and those of the types nested in it. -/
def unbind : TypeDeclaration → TypeDeclaration
  | ⟨content, memberTypes, _⟩ => ⟨content, unbindAll memberTypes, none⟩

/-- The types of a forest without their identities. -/
def unbindAll : List TypeDeclaration → List TypeDeclaration
  | [] => []
  | t :: ts => t.unbind :: unbindAll ts

end

mutual

theorem unbind_bind (package : List String) (outer : Option String) :
    ∀ t : TypeDeclaration, (t.bind package outer).unbind = t.unbind
  | ⟨content, memberTypes, _⟩ => by
    rw [bind, unbind, unbind, unbindAll_bindAll]

theorem unbindAll_bindAll (package : List String) (outer : Option String) :
    ∀ ts : List TypeDeclaration, unbindAll (bindAll package outer ts) = unbindAll ts
  | [] => by rw [bindAll]
  | t :: ts => by
    rw [bindAll, unbindAll, unbindAll, unbind_bind package outer t,
      unbindAll_bindAll package outer ts]

end

mutual

theorem bind_unbind (package : List String) (outer : Option String) :
    ∀ t : TypeDeclaration, t.unbind.bind package outer = t.bind package outer
  | ⟨content, memberTypes, _⟩ => by
    rw [unbind, bind, bind, bindAll_unbindAll]

theorem bindAll_unbindAll (package : List String) (outer : Option String) :
    ∀ ts : List TypeDeclaration, bindAll package outer (unbindAll ts) = bindAll package outer ts
  | [] => by rw [unbindAll]
  | t :: ts => by
    rw [unbindAll, bindAll, bindAll, bind_unbind package outer t,
      bindAll_unbindAll package outer ts]

end

theorem unbindAll_eq_map (ts : List TypeDeclaration) : unbindAll ts = ts.map unbind := by
  induction ts with
  | nil => rw [unbindAll, List.map_nil]
  | cons t ts ih => rw [unbindAll, List.map_cons, ih]

end TypeDeclaration

theorem Nesting.unbindAll_forest (N : Nesting) (content : Nat → TypeContent)
    (binding : Nat → Option TypeBinding) (n : Nat) :
    ∀ p, TypeDeclaration.unbindAll (N.forest content binding n p) =
      N.forest content (fun _ => none) n p := by
  refine N.members_induction n fun p ih => ?_
  rw [TypeDeclaration.unbindAll_eq_map, forest_eq, forest_eq, List.map_map]
  refine List.map_congr_left fun i hi => ?_
  rw [Function.comp_apply, declaration, declaration, TypeDeclaration.unbind, ih i hi]

namespace DeclarationTree

/-- The tree without identities and without the ranges of comments, as it was when it was built. -/
def cleared (t : DeclarationTree) : DeclarationTree :=
  { t with types := TypeDeclaration.unbindAll t.types, comments := [] }

@[simp] theorem cleared_bind (t : DeclarationTree) : t.bind.cleared = t.cleared := by
  rw [cleared, cleared, bind, TypeDeclaration.unbindAll_bindAll]

@[simp] theorem types_bind_cleared (t : DeclarationTree) : t.cleared.bind.types = t.bind.types :=
  TypeDeclaration.bindAll_unbindAll ..

@[simp] theorem bindings_bind_cleared (t : DeclarationTree) :
    t.cleared.bind.bindings = t.bind.bindings := by
  rw [bindings, walk, types_bind_cleared]
  rfl

/-- A tree that has just been built is clear. -/
theorem cleared_of_build {o : Options} {m : Source.Module} {t : DeclarationTree}
    (ht : build o m = .ok t) :
    t.cleared = t := by
  obtain ⟨content, -, -, htypes⟩ := types_of_build ht
  have hcomments : t.comments = [] := by
    obtain ⟨f, -, h⟩ := bind_eq_ok.1 ht
    exact Except.ok.inj h ▸ rfl
  rw [cleared, htypes, Nesting.unbindAll_forest, ← htypes, ← hcomments]

end DeclarationTree

end HostBridge
