import HostBridge.Proofs.Binding.Identity

/-!
# Names of classes and names of identities

The name of a nested class is taken apart when its declaration is built, `declaredName`, and put
together again when it gets its identity, `binaryName`. In between the names of the package and of
the type go separate ways. This file shows that for a module whose classes are named as a compiler
names them, `Source.Module.FollowsNaming`, nothing is lost on the way: the qualified name of an
identity is the name of the class, `DeclarationTree.bind_of_followsNaming`.

The argument is an induction over the nesting. A class of such a module is named in the package by
its simple name, `FollowsNaming.name_eq`, and the simple name of a nested class continues that of
its owner; so what `declaredName` takes off is exactly what `binaryName` puts in front again,
`FollowsNaming.binaryName_eq`.

The last section looks names up in an environment. An environment whose identities are segmented
holds at most one identity of a name, so it does not matter which one was registered first.
-/

namespace HostBridge

/-! ### The naming of classes -/

namespace Source

/-- The qualified name of what has this simple name and belongs to the package of the module. -/
def Module.inPackage (m : Module) (simpleName : String) : String :=
  match m.package with
  | none => simpleName
  | some p => Dotted.withoutTrailingDots p.name ++ "." ++ simpleName

/-- **Names as a compiler gives them.** A class that is not nested is named in the package of the
module. A nested one has the name of its enclosing class, which comes before it, then a `$` and a
name of its own. -/
structure Module.FollowsNaming (m : Module) : Prop where
  topLevel : ∀ c ∈ m.primaryClasses, c.outer = none → ∃ s, '.' ∉ s.toList ∧ c.name = m.inPackage s
  nested : ∀ i c outer, m.primaryClasses[i]? = some c → c.outer = some outer →
    (∃ d ∈ m.primaryClasses.take i, d.name = outer) ∧
      ∃ s, '.' ∉ s.toList ∧ c.name = outer ++ "$" ++ s

variable {m : Module} {i : Nat} {c : Class}

theorem Module.inPackage_append (m : Module) (s t : String) :
    m.inPackage (s ++ t) = m.inPackage s ++ t := by
  rw [inPackage, inPackage]
  split
  · rfl
  · exact (String.append_assoc ..).symm

theorem Module.simpleName_inPackage (m : Module) {s : String} (hs : '.' ∉ s.toList) :
    Dotted.simpleName (m.inPackage s) = s := by
  rw [inPackage]
  split
  · exact Dotted.simpleName_of_not_mem hs
  · exact Dotted.simpleName_dot_append _ hs

/-- The simple name of a nested class continues that of its enclosing class. -/
theorem Class.simpleName_of_nested {outer s : String} (hname : c.name = outer ++ "$" ++ s)
    (hs : '.' ∉ s.toList) : c.simpleName = Dotted.simpleName outer ++ "$" ++ s := by
  have hdollar : '.' ∉ ("$" ++ s).toList := by simpa using hs
  rw [Class.simpleName, hname, String.append_assoc, Dotted.simpleName_append _ hdollar,
    String.append_assoc]

/-- What is declared of a nested class is the part of its name that is its own. -/
theorem Class.declaredName_of_nested {outer s : String} (houter : c.outer = some outer)
    (hname : c.name = outer ++ "$" ++ s) (hs : '.' ∉ s.toList) : declaredName c = s := by
  have hfront : Text.afterPrefix? (Dotted.simpleName outer).toList c.simpleName.toList =
      some ('$' :: s.toList) := by
    rw [Text.afterPrefix?_eq_some_iff, Class.simpleName_of_nested hname hs]
    simp
  rw [declaredName, houter]
  dsimp only
  rw [hfront]
  exact String.ofList_toList

namespace Module.FollowsNaming

/-- A class that is enclosed by another one belongs to an earlier place, which holds a class of that
name. -/
theorem exists_owner (hm : m.FollowsNaming) {outer : String} (hc : m.primaryClasses[i]? = some c)
    (houter : c.outer = some outer) :
    ∃ j d, (Nesting.ofClasses m.primaryClasses).owner i = some j ∧ j < i ∧
      m.primaryClasses[j]? = some d ∧ d.name = outer := by
  obtain ⟨⟨d, hd, hname⟩, -⟩ := hm.nested i c outer hc houter
  have howner := Nesting.owner_ofClasses hc
  rw [houter, Option.bind_some] at howner
  -- the owner is the latest class of that name, and there is one
  cases hlast : lastPlace? outer (m.primaryClasses.take i) with
  | none => exact absurd hname (lastPlace?_eq_none_iff.1 hlast d hd)
  | some j =>
    rw [hlast] at howner
    obtain ⟨⟨e, he, hname'⟩, -⟩ := lastPlace?_eq_some hlast
    have hlt := (Nesting.ofClasses m.primaryClasses).owner_lt howner
    rw [List.getElem?_take_of_lt hlt] at he
    exact ⟨j, e, howner, hlt, he, hname'⟩

/-- The name of a class is its simple name in the package of the module. -/
theorem name_eq (hm : m.FollowsNaming) (hc : m.primaryClasses[i]? = some c) :
    c.name = m.inPackage c.simpleName := by
  -- by induction on the place, since the enclosing class comes before
  induction i using Nat.strongRecOn generalizing c with
  | ind i ih =>
    cases houter : c.outer with
    | none =>
      obtain ⟨s, hs, hname⟩ := hm.topLevel c (List.mem_of_getElem? hc) houter
      rw [Class.simpleName, hname, simpleName_inPackage m hs]
    | some outer =>
      obtain ⟨-, s, hs, hname⟩ := hm.nested i c outer hc houter
      obtain ⟨j, d, -, hlt, hd, rfl⟩ := hm.exists_owner hc houter
      calc c.name = d.name ++ "$" ++ s := hname
        _ = m.inPackage d.simpleName ++ "$" ++ s := by rw [← ih j hlt hd]
        _ = m.inPackage (d.simpleName ++ "$" ++ s) := by rw [inPackage_append, inPackage_append]
        _ = m.inPackage c.simpleName := by rw [Class.simpleName_of_nested hname hs]; rfl

/-- **What is taken off a nested name is put back.** The binary name of a place is the simple name
of its class. -/
theorem binaryName_eq (hm : m.FollowsNaming) {name : Nat → String}
    (hdeclared : ∀ i c, m.primaryClasses[i]? = some c → name i = declaredName c)
    (hc : m.primaryClasses[i]? = some c) :
    (Nesting.ofClasses m.primaryClasses).binaryName name i = c.simpleName := by
  -- again by induction on the place
  induction i using Nat.strongRecOn generalizing c with
  | ind i ih =>
    rw [Nesting.binaryName_eq, hdeclared i c hc]
    cases houter : c.outer with
    | none =>
      have howner : (Nesting.ofClasses m.primaryClasses).owner i = none := by
        rw [Nesting.owner_ofClasses hc, houter]
        rfl
      rw [howner, declaredName, houter]
      rfl
    | some outer =>
      obtain ⟨-, s, hs, hname⟩ := hm.nested i c outer hc houter
      obtain ⟨j, d, howner, hlt, hd, rfl⟩ := hm.exists_owner hc houter
      -- the declared name gets the simple name of the enclosing class and the `$` in front of it
      rw [howner, Option.map_some, ih j hlt hd, Class.declaredName_of_nested houter hname hs,
        Class.simpleName_of_nested hname hs]
      rfl

end Module.FollowsNaming

end Source

/-! ### A class inside another one -/

namespace Source

/-- A file with a class and a class nested in it. -/
def Module.outerInner : Module where
  id := ⟨0⟩
  package := some ⟨"p", 8, 9⟩
  classes := [.plain "p.Outer" {}, (Class.plain "p.Outer$Inner" {}).nestedIn "p.Outer"]

theorem Module.followsNaming_outerInner : outerInner.FollowsNaming where
  topLevel c hc houter := by
    rcases List.mem_cons.1 hc with rfl | hc
    · exact ⟨"Outer", by decide, rfl⟩
    · obtain rfl := List.mem_singleton.1 hc
      cases houter
  nested i c outer hc houter := by
    match i with
    | 0 =>
      obtain rfl := Option.some.inj hc
      cases houter
    | 1 =>
      obtain rfl := Option.some.inj hc
      obtain rfl := Option.some.inj houter
      exact ⟨⟨.plain "p.Outer" {}, List.mem_cons_self, rfl⟩, "Inner", by decide, rfl⟩
    | _ + 2 => cases hc

end Source

/-! ### Identities -/

namespace DeclarationTree

variable {o : Options} {m : Source.Module} {t : DeclarationTree}

/-- The qualified name of an identity in the package of a module. -/
theorem qualifiedName_packageSegments (hpackage : t.package = m.package.map .ofPackage)
    (s : String) :
    (⟨t.packageSegments ++ [s]⟩ : TypeBinding).qualifiedName = m.inPackage s := by
  rw [TypeBinding.qualifiedName, Source.Module.inPackage]
  cases hp : m.package with
  | none =>
    rw [packageSegments_of_none hpackage hp]
    exact String.intercalate_singleton
  | some p =>
    rw [packageSegments_of_some hpackage hp, Dotted.join_append_singleton (Dotted.split_ne_nil _),
      Dotted.join_split]

/-- **The identities of a module are named as its classes.** -/
theorem bind_of_followsNaming (ht : build o m = .ok t) (hm : m.FollowsNaming) :
    ∃ (content : Nat → TypeContent) (binding : Nat → TypeBinding),
      (∀ i c, m.primaryClasses[i]? = some c →
        TypeContent.ofClass o m.comments c = .ok (content i)) ∧
      t.bind.types = (Nesting.ofClasses m.primaryClasses).forest content (fun i => some (binding i))
        m.primaryClasses.length none ∧
      ∀ i c, m.primaryClasses[i]? = some c → (binding i).qualifiedName = c.name := by
  obtain ⟨content, hbuilt, hpackage, htypes⟩ := bind_of_build ht
  refine ⟨content, _, hbuilt, htypes, fun i c hc => ?_⟩
  have hdeclared : ∀ i c, m.primaryClasses[i]? = some c → (content i).name = declaredName c :=
    fun i c hc => TypeContent.name_of_ofClass (hbuilt i c hc)
  rw [hm.binaryName_eq hdeclared hc, qualifiedName_packageSegments hpackage]
  exact (hm.name_eq hc).symm

end DeclarationTree

/-! ### Looking names up -/

namespace Environment

variable {e : Environment} {b c : TypeBinding} {bs : List TypeBinding}

theorem mem_bindings_register (h : b ∈ (e.register c).bindings) : b ∈ e.bindings ∨ b = c := by
  rw [register] at h
  split at h
  · exact Or.inl h
  · simpa using h

/-- An environment holds nothing but what was registered. -/
theorem mem_bindings_registerAll (h : b ∈ (e.registerAll bs).bindings) :
    b ∈ e.bindings ∨ b ∈ bs := by
  induction bs generalizing e with
  | nil => exact Or.inl h
  | cons c bs ih =>
    rcases ih h with h | h
    · rcases mem_bindings_register h with h | rfl
      · exact Or.inl h
      · exact Or.inr List.mem_cons_self
    · exact Or.inr (List.mem_cons_of_mem _ h)

/-- The first registration of a name stays. -/
theorem lookup?_registerAll_of_some {name : String} (h : e.lookup? name = some b)
    (bs : List TypeBinding) :
    (e.registerAll bs).lookup? name = some b := by
  induction bs generalizing e with
  | nil => exact h
  | cons c bs ih =>
    refine ih ?_
    -- registering under the same name changes nothing, and under another name nothing for this one
    by_cases hname : c.qualifiedName = name
    · subst hname
      rw [lookup?_register_self, h, Option.getD_some]
    · rw [lookup?_register_of_ne e hname, h]

/-- After registering an identity its name is taken. -/
theorem isTaken_registerAll (h : b ∈ bs) : ((e.registerAll bs).lookup? b.qualifiedName).isSome := by
  induction bs generalizing e with
  | nil => exact absurd h List.not_mem_nil
  | cons c bs ih =>
    rcases List.mem_cons.1 h with rfl | h
    · have hself := lookup?_registerAll_of_some (lookup?_register_self e b) bs
      exact Option.isSome_of_eq_some hself
    · exact ih h

/-- **The name of an identity leads to it**, whatever has been registered before, since an identity
that is segmented is the only one of its name. -/
theorem lookup?_registerAll (he : ∀ b ∈ e.bindings, b.IsSegmented) (hbs : ∀ b ∈ bs, b.IsSegmented)
    (h : b ∈ bs) : (e.registerAll bs).lookup? b.qualifiedName = some b := by
  obtain ⟨c, hc⟩ := Option.isSome_iff_exists.1 (isTaken_registerAll (e := e) h)
  have hmem : c ∈ (e.registerAll bs).bindings := List.mem_of_find?_eq_some hc
  have hname : c.qualifiedName = b.qualifiedName := by simpa using List.find?_some hc
  -- whichever identity has taken the name is segmented, so it is the same one
  have hsegmented : c.IsSegmented := (mem_bindings_registerAll hmem).elim (he c) (hbs c)
  rw [hc, hsegmented.eq (hbs b h) hname]

end Environment

end HostBridge
