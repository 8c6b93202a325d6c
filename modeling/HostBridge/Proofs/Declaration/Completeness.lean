import HostBridge.Declaration.Build
import HostBridge.Proofs.Declaration.Nesting
import Mathlib.Data.List.Induction

/-!
# The declarations of a module are complete

The builder attaches one class after the other to a forest that keeps growing, at an address that it
looks up by the name of the enclosing class. This file compares it with a description that knows no
addresses. The primary classes of a module are nested as their names say, `Nesting.ofClasses`: a
class belongs to the latest class before it that bears the name of its enclosing class.

* `DeclarationTree.build_complete` — building fails at the first class that cannot be built or whose
  enclosing class does not come before it, and nowhere else; and if it does not fail, then the
  declarations are those of the nesting, each class having been built exactly once.

The invariant is `Forest.Represents`: the forest is that of the classes so far, and each name has
the address of the latest class that bears it. The step is `Forest.addClass_of_represents`, the run
`Forest.addClasses_of_represents`.
-/

namespace HostBridge

/-! ### The nesting of classes -/

namespace Source

/-- The classes that are written in the file, in order. -/
def Module.primaryClasses (m : Module) : List Class := m.classes.filter (·.primary)

/-- The place of the last class of that name. -/
def lastPlace? (name : String) : List Class → Option Nat
  | [] => none
  | c :: cs => ((lastPlace? name cs).map (· + 1)).or (if c.name = name then some 0 else none)

theorem lastPlace?_concat (name : String) (cs : List Class) (c : Class) :
    lastPlace? name (cs ++ [c]) = if c.name = name then some cs.length else lastPlace? name cs := by
  induction cs with
  | nil => simp [lastPlace?]
  | cons d cs ih =>
    rw [List.cons_append, lastPlace?, ih]
    by_cases h : c.name = name <;> simp [lastPlace?, h]

/-- The last place of a name holds a class of that name, and no place after it does. -/
theorem lastPlace?_eq_some {name : String} {cs : List Class} {i : Nat}
    (h : lastPlace? name cs = some i) :
    (∃ c, cs[i]? = some c ∧ c.name = name) ∧ ∀ j c, i < j → cs[j]? = some c → c.name ≠ name := by
  induction cs using List.reverseRecOn generalizing i with
  | nil => simp [lastPlace?] at h
  | append_singleton cs d ih =>
    rw [lastPlace?_concat] at h
    -- either the class at the end bears the name, or the last place is among the others
    by_cases hd : d.name = name
    · rw [if_pos hd, Option.some.injEq] at h
      subst h
      refine ⟨⟨d, by simp, hd⟩, fun j c hj hc => ?_⟩
      have := (List.getElem?_eq_some_iff.1 hc).1
      simp at this
      omega
    · rw [if_neg hd] at h
      obtain ⟨⟨c, hc, hname⟩, hlast⟩ := ih h
      have hlt := (List.getElem?_eq_some_iff.1 hc).1
      refine ⟨⟨c, (List.getElem?_append_left hlt).trans hc, hname⟩, fun j e hj he => ?_⟩
      by_cases hjl : j < cs.length
      · rw [List.getElem?_append_left hjl] at he
        exact hlast j e hj he
      · obtain rfl : j = cs.length := by
          have := (List.getElem?_eq_some_iff.1 he).1
          simp at this
          omega
        simp only [List.getElem?_concat_length, Option.some.injEq] at he
        exact he ▸ hd

theorem lastPlace?_eq_none_iff {name : String} {cs : List Class} :
    lastPlace? name cs = none ↔ ∀ c ∈ cs, c.name ≠ name := by
  induction cs with
  | nil => simp [lastPlace?]
  | cons c cs ih => simp [lastPlace?, ih, and_comm]

end Source

/-- The nesting of classes by their names: the owner of a class is the latest class before it that
bears the name of its enclosing class. -/
def Nesting.ofClasses (cs : List Source.Class) : Nesting where
  owner i := (cs[i]?.bind (·.outer)).bind fun outer => Source.lastPlace? outer (cs.take i)
  owner_lt := by
    intro i j h
    obtain ⟨outer, -, hlast⟩ := Option.bind_eq_some_iff.1 h
    obtain ⟨⟨c, hc, -⟩, -⟩ := Source.lastPlace?_eq_some hlast
    have := (List.getElem?_eq_some_iff.1 hc).1
    rw [List.length_take] at this
    omega

theorem Nesting.owner_ofClasses {cs : List Source.Class} {n : Nat} {c : Source.Class}
    (hc : cs[n]? = some c) :
    (ofClasses cs).owner n = c.outer.bind fun outer => Source.lastPlace? outer (cs.take n) := by
  change (cs[n]?.bind (·.outer)).bind _ = _
  rw [hc, Option.bind_some]

/-! ### What keeps a class from being built -/

/-- **An offence.** What keeps the class at a place from being built: a fault of its own, or else
that no class before it bears the name of its enclosing class. -/
inductive Source.IsOffence (o : Options) (comments : List Comment) (cs : List Class) (i : Nat) :
    Fault → Prop
  | own {c : Class} {fault : Fault} (hc : cs[i]? = some c)
      (hbuilt : TypeContent.ofClass o comments c = .error fault) : IsOffence o comments cs i fault
  | missingOuter {c : Class} {content : TypeContent} {outer : String} (hc : cs[i]? = some c)
      (hbuilt : TypeContent.ofClass o comments c = .ok content) (houter : c.outer = some outer)
      (hmissing : ∀ d ∈ cs.take i, d.name ≠ outer) :
      IsOffence o comments cs i (.missingOuterType c.name outer)

open Source (IsOffence)

variable {o : Options} {comments : List Source.Comment} {cs : List Source.Class} {i : Nat}

theorem Source.IsOffence.lt_length {fault : Fault} (h : IsOffence o comments cs i fault) :
    i < cs.length := by
  rcases h with ⟨hc, -⟩ | ⟨hc, -, -, -⟩ <;> exact (List.getElem?_eq_some_iff.1 hc).1

/-- There is at most one offence at a place. -/
theorem Source.IsOffence.unique {fault fault' : Fault} (h : IsOffence o comments cs i fault)
    (h' : IsOffence o comments cs i fault') : fault = fault' := by
  -- a class can be built or not, so two kinds of offence at one place exclude each other
  rcases h with ⟨hc, hbuilt⟩ | ⟨hc, hbuilt, houter, -⟩ <;>
    rcases h' with ⟨hc', hbuilt'⟩ | ⟨hc', hbuilt', houter', -⟩ <;>
    obtain rfl := Option.some.inj (hc.symm.trans hc')
  · exact Except.error.inj (hbuilt.symm.trans hbuilt')
  · exact absurd (hbuilt.symm.trans hbuilt') (by simp)
  · exact absurd (hbuilt.symm.trans hbuilt') (by simp)
  · rw [Option.some.inj (houter.symm.trans houter')]

/-- There is no offence exactly where the class can be built and follows its enclosing class. -/
theorem Source.not_isOffence_iff {c : Source.Class} (hc : cs[i]? = some c) :
    (∀ fault, ¬ IsOffence o comments cs i fault) ↔
      (∃ content, TypeContent.ofClass o comments c = .ok content) ∧
        ∀ outer, c.outer = some outer → ∃ d ∈ cs.take i, d.name = outer := by
  constructor
  · intro h
    cases hbuilt : TypeContent.ofClass o comments c with
    | error fault => exact absurd (.own hc hbuilt) (h fault)
    | ok content =>
      refine ⟨⟨content, rfl⟩, fun outer houter => ?_⟩
      by_contra hmissing
      push Not at hmissing
      exact h _ (.missingOuter hc hbuilt houter hmissing)
  · rintro ⟨⟨content, hcontent⟩, houters⟩ fault (⟨hd, hbuilt⟩ | ⟨hd, hbuilt, houter, hmissing⟩)
    · obtain rfl := Option.some.inj (hc.symm.trans hd)
      exact absurd (hcontent.symm.trans hbuilt) (by simp)
    · -- the enclosing class has been there all along
      obtain rfl := Option.some.inj (hc.symm.trans hd)
      obtain ⟨d, hd, hname⟩ := houters _ houter
      exact hmissing d hd hname

/-! ### The forest of the classes so far -/

/-- **The invariant of building.** After the first `n` classes the forest is theirs, and each name
has the address of the latest class that bears it. -/
structure Forest.Represents (o : Options) (comments : List Source.Comment) (cs : List Source.Class)
    (content : Nat → TypeContent) (n : Nat) (f : Forest) : Prop where
  /-- The classes so far have been built. -/
  built : ∀ i c, i < n → cs[i]? = some c → TypeContent.ofClass o comments c = .ok (content i)
  /-- The types are nested as the classes are. -/
  types : f.types = (Nesting.ofClasses cs).forest content (fun _ => none) n none
  /-- The recorded addresses lead to the latest classes. -/
  addresses : ∀ name, Option.Rel (fun path i => (Nesting.ofClasses cs).Leads n none path (some i))
    (f.addresses.lookup name) (Source.lastPlace? name (cs.take n))

namespace Forest

variable {content : Nat → TypeContent} {n : Nat} {f : Forest}

theorem represents_empty : Represents o comments cs content 0 {} where
  built := fun i _ hi => absurd hi (Nat.not_lt_zero i)
  types := (Nesting.forest_zero ..).symm
  addresses := fun _ => Option.Rel.none

namespace Represents

/-- The address of the enclosing class is found, if it is there; it leads to the owner. -/
theorem ownerAddress (h : f.Represents o comments cs content n) {c : Source.Class}
    (hc : cs[n]? = some c) :
    (∃ path, f.ownerAddress? c = some path ∧
      (Nesting.ofClasses cs).Leads n none path ((Nesting.ofClasses cs).owner n)) ∨
    (∃ outer, c.outer = some outer ∧ f.ownerAddress? c = none ∧
      ∀ d ∈ cs.take n, d.name ≠ outer) := by
  rw [Nesting.owner_ofClasses hc, ownerAddress?]
  cases houter : c.outer with
  | none => exact Or.inl ⟨[], rfl, rfl⟩
  | some outer =>
    -- the invariant has an address for a name exactly if it has a place for it
    have haddress := h.addresses outer
    rw [Option.bind_some]
    cases hlast : Source.lastPlace? outer (cs.take n) with
    | none =>
      rw [hlast] at haddress
      refine Or.inr ⟨outer, rfl, ?_, Source.lastPlace?_eq_none_iff.1 hlast⟩
      cases hlookup : f.addresses.lookup outer with
      | none => simp [hlookup]
      | some path =>
        rw [hlookup] at haddress
        cases haddress
    | some i =>
      rw [hlast] at haddress
      cases hlookup : f.addresses.lookup outer with
      | none =>
        rw [hlookup] at haddress
        cases haddress
      | some path =>
        rw [hlookup] at haddress
        cases haddress with
        | some hleads => exact Or.inl ⟨path, by simp [hlookup], hleads⟩

/-- **Building one more class.** With the type of the next class attached to its owner, the forest
is that of one more class. -/
theorem succ (h : f.Represents o comments cs content n) {c : Source.Class} {path : List Nat}
    (hc : cs[n]? = some c) (hbuilt : TypeContent.ofClass o comments c = .ok (content n))
    (hleads : (Nesting.ofClasses cs).Leads n none path ((Nesting.ofClasses cs).owner n)) :
    ∃ types address, attach f.types path (.leaf (content n)) = some (types, address) ∧
      Represents o comments cs content (n + 1) ⟨types, (c.name, address) :: f.addresses⟩ := by
  refine ⟨_, _, by rw [h.types]; exact Nesting.attach_forest hleads, ?_, rfl, fun name => ?_⟩
  · -- the classes before are built as they were, the new one by assumption
    intro i d hi hd
    rcases Nat.lt_succ_iff_lt_or_eq.1 hi with hi | rfl
    · exact h.built i d hi hd
    · obtain rfl := Option.some.inj (hc.symm.trans hd)
      exact hbuilt
  · have hlt := (List.getElem?_eq_some_iff.1 hc).1
    rw [List.take_add_one, hc, Option.toList_some, Source.lastPlace?_concat, List.length_take,
      Nat.min_eq_left (Nat.le_of_lt hlt), List.lookup_cons]
    by_cases hname : c.name = name
    · -- the new class hides an older one of its name
      subst hname
      simp only [beq_self_eq_true, if_true]
      exact Option.Rel.some hleads.new
    · rw [if_neg hname, beq_eq_false_iff_ne.2 (Ne.symm hname)]
      -- the addresses of other names stay in place
      have haddress := h.addresses name
      generalize f.addresses.lookup name = path?,
        Source.lastPlace? name (cs.take n) = place? at haddress
      cases haddress with
      | none => exact Option.Rel.none
      | some hleads' => exact Option.Rel.some hleads'.succ

end Represents

/-- What attaching comes to at an address that leads somewhere: the address is never too long. -/
theorem attach_of_leads {N : Nesting} {p q : Option Nat} {path : List Nat} (h : N.Leads n p path q)
    (new : TypeDeclaration) :
    ∃ r, attach (N.forest content (fun _ => none) n p) path new = some r := by
  induction path generalizing p with
  | nil => exact ⟨_, rfl⟩
  | cons k path ih =>
    obtain ⟨i, hi, h⟩ := h
    obtain ⟨r, hr⟩ := ih h
    have hk : (N.forest content (fun _ => none) n p)[k]? =
        some (N.declaration content (fun _ => none) n i) := by
      rw [Nesting.forest_eq, List.getElem?_map, hi, Option.map_some]
    rw [attach, hk]
    simp only [Nesting.declaration]
    rw [hr]
    exact ⟨_, rfl⟩

/-! ### Building the classes one after the other -/

/-- The type of each class that can be built. -/
def contentAt (o : Options) (comments : List Source.Comment) (cs : List Source.Class) (i : Nat) :
    TypeContent :=
  ((cs[i]?.bind fun c => (TypeContent.ofClass o comments c).toOption)).getD default

theorem contentAt_eq {c : Source.Class} {d : TypeContent} (hc : cs[i]? = some c)
    (hbuilt : TypeContent.ofClass o comments c = .ok d) : contentAt o comments cs i = d := by
  rw [contentAt, hc, Option.bind_some, hbuilt]
  rfl

theorem addClass_of_attach {c : Source.Class} {d : TypeContent} {types : List TypeDeclaration}
    {address : List Nat} (hbuilt : TypeContent.ofClass o comments c = .ok d)
    (hattach : ((f.ownerAddress? c).bind fun path =>
      attach f.types path (.leaf d)) = some (types, address)) :
    f.addClass o comments c = .ok ⟨types, (c.name, address) :: f.addresses⟩ := by
  unfold addClass
  simp only [hbuilt, bind, Except.bind, hattach]
  rfl

theorem addClass_of_missing {c : Source.Class} {d : TypeContent}
    (hbuilt : TypeContent.ofClass o comments c = .ok d) (hmissing : f.ownerAddress? c = none) :
    f.addClass o comments c = .error (.missingOuterType c.name (c.outer.getD "")) := by
  unfold addClass
  simp only [hbuilt, bind, Except.bind, hmissing, Option.bind_none]

/-- **One class.** Either the class is built and attached, or there is an offence at its place and
building fails with it. -/
theorem addClass_of_represents (h : f.Represents o comments cs (contentAt o comments cs) n)
    {c : Source.Class} (hc : cs[n]? = some c) :
    (∃ f', f.addClass o comments c = .ok f' ∧
      f'.Represents o comments cs (contentAt o comments cs) (n + 1) ∧
      ∀ fault, ¬ IsOffence o comments cs n fault) ∨
    (∃ fault, f.addClass o comments c = .error fault ∧ IsOffence o comments cs n fault) := by
  -- a fault of the class itself comes first
  cases hbuilt : TypeContent.ofClass o comments c with
  | error fault =>
    refine Or.inr ⟨fault, ?_, .own hc hbuilt⟩
    rw [addClass, hbuilt]
    rfl
  | ok d =>
    have hcontent := contentAt_eq hc hbuilt
    rcases h.ownerAddress hc with ⟨path, hpath, hleads⟩ | ⟨outer, houter, hnone, hmissing⟩
    · obtain ⟨types, address, hattach, hrep⟩ := h.succ hc (hcontent ▸ hbuilt) hleads
      refine Or.inl ⟨_, ?_, hrep, (Source.not_isOffence_iff hc).2
        ⟨⟨d, hbuilt⟩, fun outer houter => ?_⟩⟩
      · refine addClass_of_attach hbuilt ?_
        rw [hpath, Option.bind_some, ← hcontent, hattach]
      · by_contra hmissing
        push Not at hmissing
        -- otherwise the name of the enclosing class would have no address
        have haddress := h.addresses outer
        rw [Source.lastPlace?_eq_none_iff.2 hmissing] at haddress
        rw [ownerAddress?, houter] at hpath
        simp only [] at hpath
        rw [hpath] at haddress
        cases haddress
    · refine Or.inr ⟨.missingOuterType c.name outer, ?_, .missingOuter hc hbuilt houter hmissing⟩
      rw [addClass_of_missing hbuilt hnone, houter]
      rfl

/-- **A run of the builder.** Building goes on up to the first offence; where there is none all
classes are built. -/
theorem addClasses_of_represents {rest later : List Source.Class}
    (hrest : cs.drop n = rest ++ later)
    (h : f.Represents o comments cs (contentAt o comments cs) n) :
    (∃ f', f.addClasses o comments rest = .ok f' ∧
      f'.Represents o comments cs (contentAt o comments cs) (n + rest.length) ∧
      ∀ i, n ≤ i → i < n + rest.length → ∀ fault, ¬ IsOffence o comments cs i fault) ∨
    (∃ fault i, f.addClasses o comments rest = .error fault ∧ n ≤ i ∧ i < n + rest.length ∧
      IsOffence o comments cs i fault ∧
      ∀ j, n ≤ j → j < i → ∀ fault', ¬ IsOffence o comments cs j fault') := by
  -- by induction on the classes still to be built, along which the invariant moves
  induction rest generalizing n f with
  | nil => exact Or.inl ⟨f, rfl, h, fun i hi hi' => absurd hi' (by simp; omega)⟩
  | cons c rest ih =>
    have hc : cs[n]? = some c := by
      have := congrArg (·[0]?) hrest
      simpa using this
    have hrest' : cs.drop (n + 1) = rest ++ later := by
      rw [← List.drop_drop, hrest]
      rfl
    rw [addClasses, List.length_cons, ← Nat.add_assoc, Nat.add_right_comm]
    rcases addClass_of_represents h hc with ⟨f', hf', hrep, hok⟩ | ⟨fault, hfault, hoffence⟩
    · -- the class has been built, so the run goes on with the rest
      rw [hf']
      show (∃ f'', f'.addClasses o comments rest = .ok f'' ∧ _) ∨
        (∃ fault i, f'.addClasses o comments rest = .error fault ∧ _)
      have before : ∀ j, n ≤ j → j < n + 1 → ∀ fault, ¬ IsOffence o comments cs j fault := by
        intro j hj hj'
        obtain rfl : j = n := by omega
        exact hok
      rcases ih hrest' hrep with ⟨f'', hf'', hrep', hoks⟩ |
        ⟨fault, i, hfault, hi, hi', hoffence, hoks⟩
      · refine Or.inl ⟨f'', hf'', hrep', fun i hi hi' => ?_⟩
        by_cases hin : i < n + 1
        · exact before i hi hin
        · exact hoks i (by omega) hi'
      · refine Or.inr ⟨fault, i, hfault, by omega, hi', hoffence, fun j hj hj' => ?_⟩
        by_cases hjn : j < n + 1
        · exact before j hj hjn
        · exact hoks j (by omega) hj'
    · -- the offence is at the first place of the run
      rw [hfault]
      refine Or.inr ⟨fault, n, rfl, Nat.le_refl n, by omega, hoffence, fun j hj hj' => ?_⟩
      omega

end Forest

/-! ### Building a module -/

namespace DeclarationTree

variable {m : Source.Module}

/-- Building a module is building its primary classes. -/
theorem build_eq (o : Options) (m : Source.Module) :
    build o m = (({} : Forest).addClasses o m.comments m.primaryClasses).map fun f =>
      { package := m.package.map .ofPackage,
        imports := ImportReference.ofModule m,
        types := f.types } := by
  rw [build, Source.Module.primaryClasses]
  cases ({} : Forest).addClasses o m.comments (m.classes.filter (·.primary)) <;> rfl

/-- The two ways building a module can end. -/
theorem build_cases (o : Options) (m : Source.Module) :
    (∃ t content, build o m = .ok t ∧
      (∀ i c, m.primaryClasses[i]? = some c →
        TypeContent.ofClass o m.comments c = .ok (content i)) ∧
      t.package = m.package.map .ofPackage ∧
      t.types = (Nesting.ofClasses m.primaryClasses).forest content (fun _ => none)
        m.primaryClasses.length none ∧
      ∀ i, i < m.primaryClasses.length → ∀ fault,
        ¬ IsOffence o m.comments m.primaryClasses i fault) ∨
    (∃ fault i, build o m = .error fault ∧ IsOffence o m.comments m.primaryClasses i fault ∧
      ∀ j, j < i → ∀ fault', ¬ IsOffence o m.comments m.primaryClasses j fault') := by
  have hempty : ({} : Forest).Represents o m.comments m.primaryClasses
      (Forest.contentAt o m.comments m.primaryClasses) 0 := Forest.represents_empty
  have hall : m.primaryClasses.drop 0 = m.primaryClasses ++ [] := by simp
  rcases Forest.addClasses_of_represents hall hempty with
    ⟨f, hf, hrep, hok⟩ | ⟨fault, i, hf, -, -, hoffence, hok⟩
  · rw [Nat.zero_add] at hrep hok
    refine Or.inl ⟨_, _, by rw [build_eq, hf]; rfl, fun i c hc => ?_, rfl, hrep.types,
      fun i => hok i (by omega)⟩
    exact hrep.built i c (List.getElem?_eq_some_iff.1 hc).1 hc
  · exact Or.inr ⟨fault, i, by rw [build_eq, hf]; rfl, hoffence, fun j => hok j (by omega)⟩

/-- Building fails with the first offence and with nothing else. -/
theorem build_eq_error_iff {o : Options} {fault : Fault} :
    build o m = .error fault ↔
      ∃ i, IsOffence o m.comments m.primaryClasses i fault ∧
        ∀ j, j < i → ∀ fault', ¬ IsOffence o m.comments m.primaryClasses j fault' := by
  rcases build_cases o m with ⟨t, content, ht, -, -, -, hok⟩ | ⟨fault', i', hfault, hoffence', hok'⟩
  · refine ⟨fun h => absurd (ht.symm.trans h) (by simp), ?_⟩
    rintro ⟨i, hoffence, -⟩
    exact absurd hoffence (hok i hoffence.lt_length fault)
  · refine ⟨fun h => ?_, ?_⟩
    · obtain rfl := Except.error.inj (h.symm.trans hfault)
      exact ⟨i', hoffence', hok'⟩
    · -- two first offences are at the same place, where there is only one
      rintro ⟨i, hoffence, hok⟩
      rcases Nat.lt_trichotomy i i' with hlt | rfl | hlt
      · exact absurd hoffence (hok' i hlt fault)
      · rw [hfault, hoffence.unique hoffence']
      · exact absurd hoffence' (hok i' hlt fault')

/-- Building succeeds exactly if each class can be built and follows its enclosing class. -/
theorem exists_build_iff {o : Options} :
    (∃ t, build o m = .ok t) ↔
      (∀ c ∈ m.primaryClasses, ∃ content, TypeContent.ofClass o m.comments c = .ok content) ∧
      ∀ i c outer, m.primaryClasses[i]? = some c → c.outer = some outer →
        ∃ d ∈ m.primaryClasses.take i, d.name = outer := by
  rcases build_cases o m with ⟨t, content, ht, -, -, -, hok⟩ | ⟨fault, i, hfault, hoffence, -⟩
  · have hat : ∀ i c, m.primaryClasses[i]? = some c → _ := fun i c hc =>
      (Source.not_isOffence_iff hc).1 (hok i (List.getElem?_eq_some_iff.1 hc).1)
    refine ⟨fun _ => ⟨fun c hc => ?_, fun i c outer hc => (hat i c hc).2 outer⟩, fun _ => ⟨t, ht⟩⟩
    obtain ⟨i, hi⟩ := List.mem_iff_getElem?.1 hc
    exact (hat i c hi).1
  · refine ⟨fun ⟨t, ht⟩ => absurd (ht.symm.trans hfault) (by simp), fun ⟨hbuilt, houters⟩ => ?_⟩
    have hc := List.getElem?_eq_getElem hoffence.lt_length
    refine absurd hoffence ((Source.not_isOffence_iff hc).2
      ⟨?_, fun outer => houters i _ outer hc⟩ fault)
    exact hbuilt _ (List.getElem_mem _)

/-- Building a given module can be tried out. -/
theorem exists_of_isOk {o : Options} (h : (build o m).isOk = true) : ∃ t, build o m = .ok t := by
  cases ht : build o m with
  | ok t => exact ⟨t, rfl⟩
  | error fault =>
    rw [ht] at h
    cases h

/-- What a module that can be built is built to. -/
theorem types_of_build {o : Options} {t : DeclarationTree} (ht : build o m = .ok t) :
    ∃ content,
      (∀ i c, m.primaryClasses[i]? = some c →
        TypeContent.ofClass o m.comments c = .ok (content i)) ∧
      t.package = m.package.map .ofPackage ∧
      t.types = (Nesting.ofClasses m.primaryClasses).forest content (fun _ => none)
        m.primaryClasses.length none := by
  rcases build_cases o m with ⟨t', content, ht', hbuilt, hpackage, htypes, -⟩ |
    ⟨fault, i, hfault, -⟩
  · obtain rfl := Except.ok.inj (ht.symm.trans ht')
    exact ⟨content, hbuilt, hpackage, htypes⟩
  · exact absurd (ht.symm.trans hfault) (by simp)

/-- An address that the builder looks up leads to a type of the forest. -/
theorem attach_ownerAddress {o : Options} {k : Nat} {f : Forest}
    (hf : ({} : Forest).addClasses o m.comments (m.primaryClasses.take k) = .ok f)
    {c : Source.Class}
    {path : List Nat} (hpath : f.ownerAddress? c = some path) (new : TypeDeclaration) :
    ∃ r, attach f.types path new = some r := by
  have hempty : ({} : Forest).Represents o m.comments m.primaryClasses
      (Forest.contentAt o m.comments m.primaryClasses) 0 := Forest.represents_empty
  have hrest : m.primaryClasses.drop 0 = m.primaryClasses.take k ++ m.primaryClasses.drop k := by
    simp
  rcases Forest.addClasses_of_represents hrest hempty with ⟨f', hf', hrep, -⟩ |
    ⟨fault, i, hfault, -⟩
  · obtain rfl := Except.ok.inj (hf.symm.trans hf')
    rw [hrep.types]
    rw [Forest.ownerAddress?] at hpath
    cases houter : c.outer with
    | none =>
      rw [houter] at hpath
      obtain rfl := Option.some.inj hpath
      exact ⟨_, rfl⟩
    | some outer =>
      have haddress := hrep.addresses outer
      rw [houter] at hpath
      simp only [] at hpath
      rw [hpath] at haddress
      generalize Source.lastPlace? outer _ = place? at haddress
      cases haddress with
      | some hleads => exact Forest.attach_of_leads hleads new
  · exact absurd (hf.symm.trans hfault) (by simp)

/-- **The declarations of a module are complete and correctly nested.** Building succeeds if and
only if each primary class can be built and follows the class that encloses it; otherwise it fails
with the first offence. The types of the tree are those of the nesting: the classes without an
enclosing one in order, and for each class, in order, those that belong to it. Each class has been
built exactly once. While the tree is built, an address that is looked up always leads to a type. -/
theorem build_complete (o : Options) (m : Source.Module) :
    ((∃ t, build o m = .ok t) ↔
      (∀ c ∈ m.primaryClasses, ∃ content, TypeContent.ofClass o m.comments c = .ok content) ∧
      ∀ i c outer, m.primaryClasses[i]? = some c → c.outer = some outer →
        ∃ d ∈ m.primaryClasses.take i, d.name = outer) ∧
    (∀ fault, build o m = .error fault ↔
      ∃ i, IsOffence o m.comments m.primaryClasses i fault ∧
        ∀ j, j < i → ∀ fault', ¬ IsOffence o m.comments m.primaryClasses j fault') ∧
    (∀ t, build o m = .ok t → ∃ content,
      (∀ i c, m.primaryClasses[i]? = some c →
        TypeContent.ofClass o m.comments c = .ok (content i)) ∧
      t.types = (Nesting.ofClasses m.primaryClasses).forest content (fun _ => none)
        m.primaryClasses.length none ∧
      t.walk.Perm ((List.range m.primaryClasses.length).map
        ((Nesting.ofClasses m.primaryClasses).declaration content (fun _ => none)
          m.primaryClasses.length))) ∧
    ∀ k f, ({} : Forest).addClasses o m.comments (m.primaryClasses.take k) = .ok f →
      ∀ c path, f.ownerAddress? c = some path → ∀ new, ∃ r, attach f.types path new = some r := by
  refine ⟨exists_build_iff, fun fault => build_eq_error_iff, fun t ht => ?_,
    fun k f hf c path hpath new => attach_ownerAddress hf hpath new⟩
  obtain ⟨content, hbuilt, -, htypes⟩ := types_of_build ht
  refine ⟨content, hbuilt, htypes, ?_⟩
  rw [walk, htypes, Nesting.walkAll_forest]
  exact (Nesting.walk_perm_range _ _).map _

end DeclarationTree

end HostBridge
