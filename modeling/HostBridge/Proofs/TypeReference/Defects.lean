import HostBridge.Proofs.TypeReference.Arguments
import HostBridge.Proofs.TypeReference.Signature

/-!
# Why a descriptor is refused

A descriptor is refused because of its own name and range, or because of a descriptor that one of
its arguments is built from. `Source.Descriptor.visited` lists all that count, in the order in which
they are built: those of the arguments come before the descriptor itself, and an entry has none if
it is a type variable or a wildcard without a bound. Arguments count even where they are of no use,
behind the name of an array or a primitive type.

What is wrong with a descriptor can be told from itself alone, `TypeReference.IsBad`: it is named
like an array and has no valid signature, or its range is checked and ends before it starts.
Building fails exactly with what is wrong with the first bad one:

* `TypeReference.ofName_eq_error_iff` — when the last step of building fails;
* `TypeReference.build_fails_iff` — when building fails, and with which fault.
-/

namespace HostBridge

/-! ### Visited descriptors -/

namespace Source

mutual

/-- The descriptors that are built on behalf of a descriptor, in order. The last one is itself. -/
def Descriptor.visited : Descriptor → List Descriptor
  | ⟨name, start, stop, generics, placeholder⟩ =>
    Generic.visitedAll generics ++ [⟨name, start, stop, generics, placeholder⟩]

def Generic.visitedAll : List Generic → List Descriptor
  | [] => []
  | g :: gs => g.visited ++ Generic.visitedAll gs

/-- The descriptors that are built on behalf of an entry: those of its first bound from above or
else of its bound from below if it is a wildcard, and those of its type if it is no type
variable. -/
def Generic.visited : Generic → List Descriptor
  | ⟨_, _, true, some (upper :: _), _, _, _⟩ => upper.visited
  | ⟨_, _, true, _, some lower, _, _⟩ => lower.visited
  | ⟨_, _, true, _, none, _, _⟩ => []
  | ⟨_, type, false, _, _, _, _⟩ => if type.placeholder then [] else type.visited

end

theorem Generic.visitedAll_eq (gs : List Generic) : visitedAll gs = gs.flatMap visited := by
  induction gs with
  | nil => rw [visitedAll, List.flatMap_nil]
  | cons g gs ih => rw [visitedAll, List.flatMap_cons, ih]

theorem Descriptor.visited_eq (d : Descriptor) :
    d.visited = d.generics.flatMap Generic.visited ++ [d] := by
  obtain ⟨_, _, _, _, _⟩ := d
  rw [visited, Generic.visitedAll_eq]

/-- What is visited for an entry is visited for its source. -/
theorem Generic.visited_eq (g : Generic) : g.visited = g.source?.elim [] Descriptor.visited := by
  obtain ⟨_, type, wildcard, upperBounds, lowerBound, _, _⟩ := g
  cases wildcard with
  | true =>
    rcases upperBounds with _ | _ | ⟨upper, _⟩ <;> rcases lowerBound with _ | lower <;>
      simp only [visited] <;> rfl
  | false =>
    obtain ⟨_, _, _, _, placeholder⟩ := type
    cases placeholder <;> rw [visited] <;> rfl

end Source

namespace TypeReference

open Source (Descriptor Generic)

variable {o : Options} {d : Descriptor} {ds es : List Descriptor} {fault : Fault}

/-! ### Bad descriptors -/

/-- **A bad descriptor**, with the fault that it is refused with. -/
inductive IsBad (o : Options) (d : Descriptor) : Fault → Prop
  /-- The name is one of an array, but no signature. -/
  | signature (harray : d.isArray = true) (h : ¬ ∃ s : ArraySignature, s.Spells d.name) :
    IsBad o d (.malformedSignature d.name)
  /-- The reference is a plain one, and where it starts is known, but not where it ends. -/
  | range (hcheck : o.checkTypeReferences = true) (hdot : '.' ∉ d.name.toList)
    (hwildcard : d.name ≠ "?") (harray : d.isArray = false)
    (hprimitive : ∀ type : Primitive, type.keyword ≠ d.name)
    (harguments : ∀ g ∈ d.generics, g.yields = false)
    (hstart : 0 < max d.start 0) (hstop : max d.stop 0 ≤ max d.start 0) :
    IsBad o d (.malformedTypeReference d.name (max d.start 0) (max d.stop 0 - 1))

theorem isBad_iff_of_isArray (h : d.isArray = true) :
    IsBad o d fault ↔
      (¬ ∃ s : ArraySignature, s.Spells d.name) ∧ fault = .malformedSignature d.name := by
  constructor
  · intro hbad
    cases hbad with
    | signature _ hspells => exact ⟨hspells, rfl⟩
    | range _ _ _ hno => exact absurd (hno.symm.trans h) Bool.false_ne_true
  · rintro ⟨hspells, rfl⟩
    exact .signature h hspells

theorem isBad_iff_of_not_isArray (h : d.isArray = false) :
    IsBad o d fault ↔
      d.name ≠ "?" ∧ (∀ type : Primitive, type.keyword ≠ d.name) ∧ '.' ∉ d.name.toList ∧
        (∀ g ∈ d.generics, g.yields = false) ∧ o.checkTypeReferences = true ∧
          0 < max d.start 0 ∧ max d.stop 0 ≤ max d.start 0 ∧
            fault = .malformedTypeReference d.name (max d.start 0) (max d.stop 0 - 1) := by
  constructor
  · intro hbad
    cases hbad with
    | signature hyes => exact absurd (h.symm.trans hyes) Bool.false_ne_true
    | range hcheck hdot hwildcard _ hprimitive harguments hstart hstop =>
      exact ⟨hwildcard, hprimitive, hdot, harguments, hcheck, hstart, hstop, rfl⟩
  · rintro ⟨hwildcard, hprimitive, hdot, harguments, hcheck, hstart, hstop, rfl⟩
    exact .range hcheck hdot hwildcard h hprimitive harguments hstart hstop

/-- **The first bad one** of some descriptors is refused with a fault. -/
def FirstBad (o : Options) (ds : List Descriptor) (fault : Fault) : Prop :=
  ∃ before d after, ds = before ++ d :: after ∧ (∀ b ∈ before, ∀ f, ¬ IsBad o b f) ∧
    IsBad o d fault

theorem firstBad_singleton : FirstBad o [d] fault ↔ IsBad o d fault := by
  constructor
  · rintro ⟨before, b, after, heq, -, hbad⟩
    obtain ⟨rfl, rfl, rfl⟩ : before = [] ∧ b = d ∧ after = [] := by
      simpa [List.singleton_eq_append_iff] using heq
    exact hbad
  · exact fun h => ⟨[], d, [], rfl, nofun, h⟩

/-- There is a first bad one if there is a bad one. -/
theorem exists_firstBad_iff : (∃ fault, FirstBad o ds fault) ↔ ∃ d ∈ ds, ∃ f, IsBad o d f := by
  constructor
  · rintro ⟨f, before, d, after, rfl, -, hbad⟩
    exact ⟨d, by simp, f, hbad⟩
  · intro h
    induction ds with
    | nil => simp at h
    | cons d ds ih =>
      by_cases hbad : ∃ f, IsBad o d f
      · obtain ⟨f, hf⟩ := hbad
        exact ⟨f, [], d, ds, rfl, nofun, hf⟩
      · obtain ⟨e, he, hlater⟩ := h
        rcases List.mem_cons.1 he with rfl | he
        · exact absurd hlater hbad
        · obtain ⟨f, before, b, after, rfl, hbefore, hb⟩ := ih ⟨e, he, hlater⟩
          refine ⟨f, d :: before, b, after, rfl, fun c hc => ?_, hb⟩
          rcases List.mem_cons.1 hc with rfl | hc
          · exact not_exists.1 hbad
          · exact hbefore c hc

/-- The first bad one of two lists is in the first list, or in the second one if there is none in
the first. -/
theorem firstBad_append :
    FirstBad o (ds ++ es) fault ↔
      FirstBad o ds fault ∨ (¬ ∃ f, FirstBad o ds f) ∧ FirstBad o es fault := by
  rw [exists_firstBad_iff]
  constructor
  · rintro ⟨before, d, after, heq, hbefore, hbad⟩
    have hright (middle : List Descriptor) (hds : before = ds ++ middle)
        (hes : es = middle ++ d :: after) :
        (¬ ∃ b ∈ ds, ∃ f, IsBad o b f) ∧ FirstBad o es fault := by
      refine ⟨?_, middle, d, after, hes, fun b hb => hbefore b (by simp [hds, hb]), hbad⟩
      rintro ⟨b, hb, f, hf⟩
      exact hbefore b (by simp [hds, hb]) f hf
    rcases List.append_eq_append_iff.1 heq with ⟨middle, hds, hes⟩ | ⟨middle, hds, hes⟩
    · exact .inr (hright middle hds hes)
    · cases middle with
      | nil => exact .inr (hright [] (by simpa using hds.symm) hes.symm)
      | cons c middle =>
        obtain ⟨rfl, -⟩ := List.cons.inj hes
        exact .inl ⟨before, d, middle, hds, hbefore, hbad⟩
  · rintro (⟨before, d, after, rfl, hbefore, hbad⟩ | ⟨hnone, before, d, after, rfl, hbefore, hbad⟩)
    · exact ⟨before, d, after ++ es, by simp, hbefore, hbad⟩
    · refine ⟨ds ++ before, d, after, by simp, fun b hb => ?_, hbad⟩
      rcases List.mem_append.1 hb with hb | hb
      · exact fun f hf => hnone ⟨b, hb, f, hf⟩
      · exact hbefore b hb

/-! ### When a name is refused -/

/-- A range that is checked is impossible if it has a start and does not go beyond it. -/
theorem hasMalformedRange_spanning {start stop : Int} (hstart : 0 ≤ start) (shape : TypeShape) :
    (covering shape (.spanning start (stop - 1))).hasMalformedRange = true ↔
      0 < start ∧ stop ≤ start := by
  rw [covering, hasMalformedRange, Position.spanning]
  split
  · -- a node without text
    simp [Position.nonExistent]
    omega
  · have hne : start ≠ -1 := by omega
    simp [hne]
    omega

theorem ofSimpleName_eq_error_iff {name : String} {start stop : Int}
    {arguments : List TypeReference} (hstart : 0 ≤ start) :
    ofSimpleName o name start stop arguments = .error fault ↔
      arguments.isEmpty = true ∧ o.checkTypeReferences = true ∧ 0 < start ∧ stop ≤ start ∧
        fault = .malformedTypeReference name start (stop - 1) := by
  unfold ofSimpleName
  dsimp only
  split
  · next hempty =>
    simp only [Bool.and_eq_true, hasMalformedRange_spanning hstart]
    split
    · next hbad =>
      have hposition : Position.spanning start (stop - 1) = ⟨start, stop - 1⟩ :=
        if_neg (by omega)
      simp [hempty, hbad, covering, hposition, eq_comm]
    · next hgood =>
      refine iff_of_false (by simp) ?_
      rintro ⟨-, hcheck, hknown, hstop, -⟩
      exact hgood ⟨hcheck, hknown, hstop⟩
  · next hne => exact iff_of_false (by simp) fun h => hne h.1

/-- **A descriptor with arguments** is refused exactly if it is bad. -/
theorem ofName_eq_error_iff {arguments : List TypeReference}
    (harguments : buildArguments o d.generics = .ok arguments) :
    ofName o d.name (max d.start 0) (max d.stop 0) arguments = .error fault ↔
      IsBad o d fault := by
  by_cases hbracket : d.name.toList.head? = some '['
  · rw [isBad_iff_of_isArray (decide_eq_true hbracket), ofName_of_isArray hbracket]
    by_cases hspells : ∃ s : ArraySignature, s.Spells d.name
    · obtain ⟨s, hs⟩ := hspells
      obtain ⟨r, hr, -⟩ := ofSignature_of_spells hbracket hs
      rw [hr]
      exact iff_of_false (by simp) fun h => h.1 ⟨s, hs⟩
    · rw [ofSignature_of_not_spells hbracket hspells, Except.error.injEq]
      exact ⟨fun h => ⟨hspells, h.symm⟩, fun h => h.2.symm⟩
  · rw [isBad_iff_of_not_isArray (decide_eq_false hbracket), ofName, if_neg hbracket]
    split
    · next hwildcard => exact iff_of_false (by simp) fun h => h.1 hwildcard
    · next hwildcard =>
      cases hprimitive : Primitive.ofKeyword? d.name with
      | some type =>
        have hkeyword := Primitive.keyword_of_ofKeyword? hprimitive
        exact iff_of_false (by simp) fun h => h.2.1 type hkeyword
      | none =>
        rw [Primitive.ofKeyword?_eq_none_iff] at hprimitive
        dsimp only
        split
        · next hdot => exact iff_of_false (by simp) fun h => h.2.2.1 hdot
        · next hdot =>
          rw [ofSimpleName_eq_error_iff (Int.le_max_right _ _),
            isEmpty_of_buildArguments harguments]
          simp only [ne_eq, hwildcard, not_false_eq_true, hprimitive, implies_true, hdot, true_and]

/-! ### When building fails -/

/-- **Failing like a list.** A step fails exactly with what is wrong with the first bad one of some
descriptors. -/
def FailsLike {α : Type} (o : Options) (ds : List Descriptor) (x : Except Fault α) : Prop :=
  ∀ fault, x = .error fault ↔ FirstBad o ds fault

namespace FailsLike

variable {α β : Type} {x : Except Fault α} {F : α → Except Fault β}

theorem ok (a : α) : FailsLike o [] (.ok a : Except Fault α) := by
  refine fun fault => ⟨nofun, ?_⟩
  rintro ⟨before, d, after, heq, -⟩
  simp at heq

/-- A step after another one comes to its turn if nothing is wrong with the list before. -/
theorem bind (hx : FailsLike o ds x) (hF : ∀ a, x = .ok a → FailsLike o es (F a)) :
    FailsLike o (ds ++ es) (x >>= F) := by
  intro fault
  rw [firstBad_append, bind_eq_error, ← hx fault]
  refine or_congr_right ⟨?_, ?_⟩
  · rintro ⟨a, ha, hfault⟩
    refine ⟨?_, (hF a ha fault).1 hfault⟩
    rintro ⟨f, hf⟩
    rw [← hx f, ha] at hf
    cases hf
  · rintro ⟨hnone, hfault⟩
    cases ha : x with
    | error f => exact absurd ⟨f, (hx f).1 ha⟩ hnone
    | ok a => exact ⟨a, rfl, (hF a ha fault).2 hfault⟩

theorem map (hx : FailsLike o ds x) (f : α → β) : FailsLike o ds (x >>= fun a => .ok (f a)) := by
  have h := hx.bind fun a _ => ok (f a)
  rwa [List.append_nil] at h

end FailsLike

/-- An argument fails like its source. -/
theorem failsLike_buildArgument {g : Generic}
    (h : ∀ s, g.source? = some s → FailsLike o s.visited (build o s)) :
    FailsLike o g.visited (buildArgument o g) := by
  rw [g.visited_eq]
  cases hsource : g.source? with
  | none =>
    rw [buildArgument_of_no_source hsource]
    exact .ok _
  | some s =>
    rw [buildArgument_of_source hsource]
    exact (h s hsource).map _

theorem failsLike_buildArguments {gs : List Generic}
    (h : ∀ g ∈ gs, FailsLike o g.visited (buildArgument o g)) :
    FailsLike o (gs.flatMap Generic.visited) (buildArguments o gs) := by
  induction gs with
  | nil =>
    rw [buildArguments]
    exact .ok _
  | cons g gs ih =>
    rw [buildArguments, List.flatMap_cons]
    have hgs := ih fun g' hg' => h g' (List.mem_cons_of_mem g hg')
    exact (h g List.mem_cons_self).bind fun a _ => hgs.map fun rest => a.toList ++ rest

/-- **Building fails like what is visited**, by induction over the descriptor. -/
theorem failsLike_build (o : Options) (d : Descriptor) : FailsLike o d.visited (build o d) := by
  induction d using Descriptor.induction with
  | step d ih =>
    rw [build_eq, d.visited_eq]
    refine (failsLike_buildArguments fun g hg => failsLike_buildArgument (ih g hg)).bind ?_
    intro arguments harguments fault
    rw [ofName_eq_error_iff harguments, firstBad_singleton]

/-- **When building fails**: exactly if one of the visited descriptors is bad, and then with what is
wrong with the first bad one. -/
theorem build_fails_iff (o : Options) (d : Descriptor) :
    ((∃ fault, build o d = .error fault) ↔ ∃ v ∈ d.visited, ∃ fault, IsBad o v fault) ∧
      ∀ fault, build o d = .error fault ↔ FirstBad o d.visited fault := by
  have hbuild := failsLike_build o d
  refine ⟨?_, hbuild⟩
  rw [← exists_firstBad_iff]
  exact exists_congr hbuild

/-- The argument comes to nothing behind the name of an array, and is refused all the same. -/
example :
    build { checkTypeReferences := true }
        ((Descriptor.named "[I").withGenerics [.plain ((Descriptor.named "Foo").placedAt 12 0)]) =
      .error (.malformedTypeReference "Foo" 12 (-1)) := by
  rfl

end TypeReference

end HostBridge
