import HostBridge.Proofs.Declaration.Completeness
import HostBridge.Proofs.Declaration.Overloads

/-!
# Where declarations come from

Every type of a declaration tree is what one class of the module is built to, however deep it is
nested, and each of its methods and constructors is implied by the class or is a way to call one of
its members. So what holds of the parts of every declaration can be shown for the declaration of one
member.

* `DeclarationTree.exists_class_of_mem_walk` — the class that a type of a tree is built from;
* `DeclarationTree.origin_of_mem_methods` — the member that a declaration of a tree comes from;
* `MethodDeclaration.forall₂_callForm` — the arguments of a way to call a member belong to the
  parameters that are left.
-/

namespace HostBridge

/-! ### The arguments of overloads -/

/-- Dropping elements keeps the order of the others. -/
theorem withoutLast_sublist {α : Type} (p : α → Bool) (k : Nat) (xs : List α) :
    (withoutLast p k xs).Sublist xs := by
  induction xs with
  | nil => exact List.Sublist.slnil
  | cons x xs ih =>
    rw [withoutLast]
    split
    · exact ih.cons x
    · exact ih.cons_cons x

/-- The last element is the first one to be dropped. -/
theorem withoutLast_concat {α : Type} (p : α → Bool) (k : Nat) (xs : List α) (x : α) :
    withoutLast p k (xs ++ [x]) =
      if p x ∧ 0 < k then withoutLast p (k - 1) xs else withoutLast p k xs ++ [x] := by
  induction xs with
  | nil =>
    by_cases hx : p x ∧ 0 < k
    · rw [if_pos hx]
      exact if_pos hx
    · rw [if_neg hx]
      exact if_neg hx
  | cons y xs ih =>
    -- there is one element more of the kind behind each other one if the last is of the kind
    rw [List.cons_append, withoutLast, withoutLast, withoutLast, ih, List.countP_append,
      List.countP_singleton]
    by_cases hx : p x ∧ 0 < k
    · have hcount : xs.countP p + 1 < k ↔ xs.countP p < k - 1 := by omega
      rw [if_pos hx, if_pos hx, if_pos hx.1]
      simp only [hcount]
    · have hcount : (xs.countP p + if p x then 1 else 0) < k ↔ xs.countP p < k := by
        split
        · next h =>
          have hzero : k = 0 := Nat.eq_zero_of_not_pos fun hk => hx ⟨h, hk⟩
          omega
        · rw [Nat.add_zero]
      rw [if_neg hx, if_neg hx]
      simp only [hcount]
      split <;> rfl

theorem map_snd_withoutLast_sublist {parameters : List Source.Parameter}
    {arguments : List Argument} (h : arguments.length = parameters.length) (k : Nat) :
    ((withoutLast (fun pa => pa.1.hasDefault) k (parameters.zip arguments)).map (·.2)).Sublist
      arguments := by
  have hkept := (withoutLast_sublist (fun pa => pa.1.hasDefault) k
    (parameters.zip arguments)).map (·.2)
  rwa [List.map_snd_zip (Nat.le_of_eq h)] at hkept

namespace MethodDeclaration

variable {m : Source.Method} {d : MethodDeclaration}

/-- No argument of an overload is new, and those that are left keep their order. -/
theorem arguments_callForm_sublist (h : d.Fits m) (k : Nat) :
    (callForm m d k).arguments.Sublist d.arguments :=
  map_snd_withoutLast_sublist h k

/-- **The parameters of an overload**: what relates the arguments of a member to its parameters also
relates those of an overload to the parameters that are left. -/
theorem forall₂_callForm {R : Source.Parameter → Argument → Prop}
    (h : List.Forall₂ R m.parameters d.arguments) (k : Nat) :
    List.Forall₂ R (withoutLast (·.hasDefault) k m.parameters) (callForm m d k).arguments := by
  rw [callForm]
  generalize m.parameters = parameters at h ⊢
  generalize d.arguments = arguments at h ⊢
  dsimp only
  induction h with
  | nil => exact .nil
  | @cons p a ps as hpa hrest ih =>
    -- a parameter is dropped with its argument, since both lists have the same defaults behind it
    have hcount := countP_hasDefault_zip hrest.length_eq.symm
    rw [List.zip_cons_cons, withoutLast, withoutLast, hcount]
    by_cases hdrop : p.hasDefault = true ∧ ps.countP (·.hasDefault) < k
    · rw [if_pos hdrop, if_pos hdrop]
      exact ih
    · rw [if_neg hdrop, if_neg hdrop]
      exact .cons hpa ih

end MethodDeclaration

/-! ### Types and their methods -/

open MethodDeclaration

variable {o : Options}

/-- **The methods of a type**: the constructor that its class implies, and ways to call the members
of the class. -/
theorem TypeContent.origin_of_mem_methods {comments : List Source.Comment} {c : Source.Class}
    {t : TypeContent} (h : ofClass o comments c = .ok t) {e : MethodDeclaration}
    (he : e ∈ t.methods) :
    e = defaultConstructor c (declaredName c) ∨
      ∃ m ∈ c.members, ∃ d, ofMember o comments c m = .ok d ∧
        ∃ k ≤ m.node.defaults, e = callForm m.node d k := by
  obtain ⟨ps, hmembers, hdeclared, hmethods⟩ := methods_of_ofClass h
  have hfits : ∀ p ∈ ps, p.2.Fits p.1.node := fun p hp => fits_of_ofMember (hdeclared p hp)
  rw [hmethods, addEach_eq hfits] at he
  rcases List.mem_append.1 he with he | he
  · left
    rw [impliedConstructors] at he
    split at he
    · exact List.mem_singleton.1 he
    · exact absurd he List.not_mem_nil
  · right
    obtain ⟨p, hp, hform⟩ := exists_of_mem_blocks hfits he
    obtain ⟨k, hk, rfl⟩ := mem_callForms.1 hform
    refine ⟨p.1, ?_, p.2, hdeclared p hp, k, hk, rfl⟩
    rw [← hmembers]
    exact List.mem_map_of_mem hp

namespace DeclarationTree

variable {m : Source.Module} {t : DeclarationTree} {type : TypeDeclaration}

/-- **The types of a tree**: each of them declares what one class of the module is built to. -/
theorem exists_class_of_mem_walk (h : build o m = .ok t) (htype : type ∈ t.walk) :
    ∃ c ∈ m.primaryClasses, TypeContent.ofClass o m.comments c = .ok type.content := by
  obtain ⟨content, hbuilt, -, htypes⟩ := types_of_build h
  rw [walk, htypes, Nesting.walkAll_forest] at htype
  obtain ⟨i, hi, rfl⟩ := List.mem_map.1 htype
  have hlt := (Nesting.climbs_of_mem_walk none i hi).1
  have hc := List.getElem?_eq_getElem hlt
  exact ⟨_, List.mem_of_getElem? hc, hbuilt i _ hc⟩

/-- The methods and constructors of a tree. -/
theorem origin_of_mem_methods (h : build o m = .ok t) (htype : type ∈ t.walk)
    {e : MethodDeclaration} (he : e ∈ type.content.methods) :
    ∃ c ∈ m.primaryClasses, e = defaultConstructor c (declaredName c) ∨
      ∃ member ∈ c.members, ∃ d, ofMember o m.comments c member = .ok d ∧
        ∃ k ≤ member.node.defaults, e = callForm member.node d k := by
  obtain ⟨c, hc, hcontent⟩ := exists_class_of_mem_walk h htype
  exact ⟨c, hc, TypeContent.origin_of_mem_methods hcontent he⟩

end DeclarationTree

end HostBridge
