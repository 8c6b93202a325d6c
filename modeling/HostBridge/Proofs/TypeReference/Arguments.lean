import HostBridge.TypeReference.Build

/-!
# The type arguments of a descriptor

An entry of a list of type arguments is built from one other descriptor at most, its *source*,
`Source.Generic.source?`: the bound that counts for a wildcard, and the type itself for a plain
argument. So what a descriptor is built to depends on the sources of its entries alone.

* `Source.Descriptor.induction` — what holds of a descriptor if it holds of the sources of its
  entries holds of every descriptor;
* `TypeReference.buildArgument_eq` — an argument, given the reference of its source;
* `TypeReference.arguments_of_buildArguments` — the arguments of a list are those of its entries
  that are no type variables, in order.
-/

namespace HostBridge

/-! ### Steps that may fail -/

section

variable {ε α β : Type} {x : Except ε α} {f : α → Except ε β} {b : β} {e : ε}

theorem bind_eq_ok : x >>= f = .ok b ↔ ∃ a, x = .ok a ∧ f a = .ok b := by
  cases x <;> simp [bind, Except.bind]

theorem bind_eq_error : x >>= f = .error e ↔ x = .error e ∨ ∃ a, x = .ok a ∧ f a = .error e := by
  cases x <;> simp [bind, Except.bind]

/-- What can be read off a result is a fact about the value, if there is one. -/
theorem exists_of_map_toOption {g : α → β} (h : x.toOption.map g = some b) :
    ∃ a, x = .ok a ∧ g a = b := by
  cases x with
  | ok a => exact ⟨a, rfl, Option.some.inj h⟩
  | error fault => cases h

end

/-! ### The sources of entries -/

namespace Source

/-- Whether an entry becomes a type argument: all do except type variables. -/
def Generic.yields (g : Generic) : Bool := g.wildcard || !g.isPlaceholder

/-- The first bound from above, if the entry has any. -/
def Generic.upperBound? (g : Generic) : Option Descriptor := g.upperBounds.bind List.head?

/-- The descriptor that the argument of an entry is built from. A wildcard without a bound has none,
and neither has a type variable. -/
def Generic.source? (g : Generic) : Option Descriptor :=
  if g.wildcard then g.upperBound?.or g.lowerBound
  else if g.isPlaceholder then none else some g.type

/-- A source is a part of its entry. -/
theorem Generic.sizeOf_source? {g : Generic} {s : Descriptor} (h : g.source? = some s) :
    sizeOf s < sizeOf g := by
  obtain ⟨_, type, wildcard, upperBounds, lowerBound, _, _⟩ := g
  simp only [source?, upperBound?, isPlaceholder] at h
  split at h
  · rcases Option.or_eq_some_iff.1 h with hupper | ⟨-, hlower⟩
    · obtain ⟨bounds, rfl, hbounds⟩ := Option.bind_eq_some_iff.1 hupper
      have := List.sizeOf_lt_of_mem (List.mem_of_head? hbounds)
      simp
      omega
    · obtain rfl := hlower
      simp
      omega
  · obtain ⟨-, h⟩ := Option.ite_none_left_eq_some.1 h
    obtain rfl := Option.some.inj h
    simp
    omega

/-- **Induction over descriptors**, along the sources of their entries. -/
theorem Descriptor.induction {P : Descriptor → Prop}
    (step : ∀ d : Descriptor, (∀ g ∈ d.generics, ∀ s, g.source? = some s → P s) → P d)
    (d : Descriptor) : P d :=
  step d fun g hg s hs => by
    have hsource := Generic.sizeOf_source? hs
    have hentry := List.sizeOf_lt_of_mem hg
    have hentries : sizeOf d.generics < sizeOf d := by
      obtain ⟨_, _, _, _, _⟩ := d
      simp only [Descriptor.mk.sizeOf_spec]
      omega
    exact Descriptor.induction step s
termination_by sizeOf d

end Source

/-! ### Building arguments -/

namespace TypeReference

open Source (Descriptor Generic)

variable {o : Options} {g : Generic} {gs : List Generic}

/-- The argument of an entry, given the reference of its source. -/
def argumentOf (g : Generic) (r : TypeReference) : TypeReference :=
  if g.wildcard then
    boundedWildcard (if g.upperBound?.isSome then .wildcardExtends else .wildcardSuper) g.start r
  else r

/-- **Building an argument** means building its source. Without a source nothing can go wrong. -/
theorem buildArgument_eq (o : Options) (g : Generic) :
    buildArgument o g = match g.source? with
      | some s => build o s >>= fun r => .ok (some (argumentOf g r))
      | none => .ok (if g.wildcard then some ⟨.wildcard, g.start, g.start, {}⟩ else none) := by
  obtain ⟨_, type, wildcard, upperBounds, lowerBound, _, _⟩ := g
  cases wildcard with
  | true =>
    rcases upperBounds with _ | _ | ⟨upper, _⟩ <;> rcases lowerBound with _ | lower <;>
      simp only [buildArgument] <;> rfl
  | false =>
    obtain ⟨_, _, _, _, placeholder⟩ := type
    cases placeholder <;> rw [buildArgument] <;> rfl

theorem buildArgument_of_source {s : Descriptor} (h : g.source? = some s) :
    buildArgument o g = build o s >>= fun r => .ok (some (argumentOf g r)) := by
  rw [buildArgument_eq, h]

theorem buildArgument_of_no_source (h : g.source? = none) :
    buildArgument o g =
      .ok (if g.wildcard then some ⟨.wildcard, g.start, g.start, {}⟩ else none) := by
  rw [buildArgument_eq, h]

/-- **What an argument is made of**: a wildcard without a bound, or the reference of the source. -/
theorem argument_cases {a : TypeReference} (h : buildArgument o g = .ok (some a)) :
    a = ⟨.wildcard, g.start, g.start, {}⟩ ∨
      ∃ s r, g.source? = some s ∧ build o s = .ok r ∧ a = argumentOf g r := by
  cases hsource : g.source? with
  | none =>
    rw [buildArgument_of_no_source hsource] at h
    obtain ⟨-, h⟩ := Option.ite_none_right_eq_some.1 (Except.ok.inj h)
    exact .inl (Option.some.inj h).symm
  | some s =>
    rw [buildArgument_of_source hsource] at h
    obtain ⟨r, hr, h⟩ := bind_eq_ok.1 h
    exact .inr ⟨s, r, rfl, hr, (Option.some.inj (Except.ok.inj h)).symm⟩

/-- An entry becomes an argument unless it is a type variable. -/
theorem isSome_of_buildArgument {a? : Option TypeReference} (h : buildArgument o g = .ok a?) :
    a?.isSome = g.yields := by
  rw [Generic.yields]
  cases hsource : g.source? with
  | none =>
    rw [buildArgument_of_no_source hsource] at h
    obtain rfl := Except.ok.inj h
    rw [Generic.source?] at hsource
    split at hsource
    · next hwildcard => simp [hwildcard]
    · next hplain =>
      have hvariable : g.isPlaceholder = true := by simpa using hsource
      simp [hplain, hvariable]
  | some s =>
    rw [buildArgument_of_source hsource] at h
    obtain ⟨r, -, h⟩ := bind_eq_ok.1 h
    obtain rfl := Except.ok.inj h
    rw [Generic.source?] at hsource
    split at hsource
    · next hwildcard => simp [hwildcard]
    · have hvariable := (Option.ite_none_left_eq_some.1 hsource).1
      simp [hvariable]

/-- **The arguments of a list** are those of its entries that are no type variables, in order. -/
theorem arguments_of_buildArguments {as : List TypeReference} (h : buildArguments o gs = .ok as) :
    (gs.filter Generic.yields).map (buildArgument o) = as.map fun a => .ok (some a) := by
  induction gs generalizing as with
  | nil =>
    rw [buildArguments] at h
    obtain rfl := Except.ok.inj h
    rfl
  | cons g gs ih =>
    rw [buildArguments] at h
    obtain ⟨a?, ha, h⟩ := bind_eq_ok.1 h
    obtain ⟨rest, hrest, h⟩ := bind_eq_ok.1 h
    obtain rfl := Except.ok.inj h
    have hyields := isSome_of_buildArgument ha
    cases a? with
    | none => rw [List.filter_cons_of_neg (by simp [← hyields]), ih hrest]; rfl
    | some a => rw [List.filter_cons_of_pos hyields.symm, List.map_cons, ih hrest, ha]; rfl

/-- There are no arguments exactly if all entries are type variables. -/
theorem isEmpty_of_buildArguments {as : List TypeReference} (h : buildArguments o gs = .ok as) :
    as.isEmpty = true ↔ ∀ g ∈ gs, g.yields = false := by
  have hlength := congrArg List.length (arguments_of_buildArguments h)
  rw [List.length_map, List.length_map] at hlength
  rw [List.isEmpty_iff_length_eq_zero, ← hlength, List.length_eq_zero_iff, List.filter_eq_nil_iff]
  simp only [Bool.not_eq_true]

/-- Each argument of a list is the argument of an entry. -/
theorem exists_of_mem_buildArguments {as : List TypeReference} (h : buildArguments o gs = .ok as)
    {a : TypeReference} (ha : a ∈ as) : ∃ g ∈ gs, buildArgument o g = .ok (some a) := by
  have hmem : (.ok (some a) : Except Fault (Option TypeReference)) ∈
      (gs.filter Generic.yields).map (buildArgument o) := by
    rw [arguments_of_buildArguments h]
    exact List.mem_map_of_mem ha
  obtain ⟨g, hg, hbuild⟩ := List.mem_map.1 hmem
  exact ⟨g, (List.mem_filter.1 hg).1, hbuild⟩

/-- A descriptor is built by its name, once its arguments have been built. -/
theorem build_eq (o : Options) (d : Descriptor) :
    build o d = buildArguments o d.generics >>=
      ofName o d.name (max d.start 0) (max d.stop 0) := by
  obtain ⟨_, _, _, _, _⟩ := d
  rw [build]

end TypeReference

end HostBridge
