import HostBridge.Proofs.Layout
import HostBridge.Proofs.TypeReference.Arguments
import HostBridge.Proofs.TypeReference.Names

/-!
# Where type references lie

The name of a descriptor decides not only the shape of its reference but also how its range is
found. There are four ways, `TypeReference.LiesAt`: some types have no place at all, a simple name
lies where it is reported, a qualified name reaches as far as its own bytes, and an array of a
qualified class starts like the name and ends where it is reported. The type arguments make no
difference.

* `TypeReference.liesAt_of_build` — the range of the reference for a descriptor;
* `TypeReference.range_eq_nonExistent_iff`, `TypeReference.keeps_start_iff` — which references are
  taken for ones without text, and that all others start where they are written;
* `TypeReference.unpack_pack_range` — that this range fits in 32 bits if the descriptor does;
* `TypeReference.isValid_range_iff` — when it is valid. The last of the four ways looks at
  an end that it never checks, so the range of an array of a qualified class that is not written
  anywhere ends before it starts, `TypeReference.invented_array_range`.
-/

namespace HostBridge

namespace Source.Descriptor

/-- A descriptor that the front end made up, without a place. -/
def IsInvented (d : Descriptor) : Prop := d.start = 0 ∧ d.stop = 0

/-- A descriptor with text of its own. -/
def IsWritten (d : Descriptor) : Prop := 0 ≤ d.start ∧ d.start < d.stop

/-- **A descriptor that fits in 32 bits**, and its name with it where it has text. -/
structure Fits (d : Descriptor) : Prop where
  stop : d.stop < 0x80000000
  name : d.start < d.stop → d.start + d.name.utf8ByteSize ≤ 0x80000000

end Source.Descriptor

namespace TypeReference

variable {o : Options} {d : Source.Descriptor} {name : String} {start stop : Int}
  {arguments : List TypeReference} {r : TypeReference}

/-- The range of a reference. -/
def range (r : TypeReference) : Position := ⟨r.start, r.stop⟩

@[simp] theorem range_ignoringRawTypes (on : Bool) : (r.ignoringRawTypes on).range = r.range := rfl

/-! ### Kinds of names -/

/-- **The names of types without a place**: wildcards, primitive types and arrays of them. -/
inductive IsUnplaced : String → Prop
  | wildcard : IsUnplaced "?"
  | primitive (type : Primitive) : IsUnplaced type.keyword
  | primitiveArray {name : String} {dimensions : Nat} {type : Primitive}
    (h : (⟨dimensions, .primitive type⟩ : ArraySignature).Spells name) : IsUnplaced name

/-- **The names of arrays of qualified classes.** -/
def IsQualifiedArray (name : String) : Prop :=
  ∃ dimensions className, '.' ∈ className.toList ∧
    (⟨dimensions, .named className⟩ : ArraySignature).Spells name

/-- A text is the signature of one array at most. -/
theorem eq_of_spells {s s' : ArraySignature} (h : s.Spells name) (h' : s'.Spells name) :
    s = s' := by
  have hread := (ArraySignature.ofText?_eq_some_iff (head?_of_spells h)).2 h
  have hread' := (ArraySignature.ofText?_eq_some_iff (head?_of_spells h)).2 h'
  exact Option.some.inj (hread.symm.trans hread')

theorem IsUnplaced.not_mem_dot (h : IsUnplaced name) : '.' ∉ name.toList := by
  cases h with
  | wildcard => decide
  | primitive type => cases type <;> decide
  | primitiveArray h =>
    obtain ⟨-, element, helement, htext⟩ := h
    cases helement with
    | primitive hletter =>
      rw [htext, List.mem_append, not_or]
      refine ⟨fun hdot => ?_, fun hdot => ?_⟩
      · exact absurd (List.eq_of_mem_replicate hdot) (by decide)
      · -- no primitive type has a dot for its letter
        obtain rfl := List.mem_singleton.1 hdot
        exact absurd hletter (by simp [Primitive.letters])

theorem IsPlain.not_isUnplaced (h : IsPlain name) : ¬ IsUnplaced name := by
  intro hunplaced
  cases hunplaced with
  | wildcard => exact h.not_wildcard rfl
  | primitive type => exact h.not_primitive type rfl
  | primitiveArray hspells => exact h.not_array (head?_of_spells hspells)

theorem IsPlain.not_isQualifiedArray (h : IsPlain name) : ¬ IsQualifiedArray name := by
  rintro ⟨_, _, -, hspells⟩
  exact h.not_array (head?_of_spells hspells)

theorem not_isUnplaced_of_named {dimensions : Nat} {className : String}
    (h : (⟨dimensions, .named className⟩ : ArraySignature).Spells name) : ¬ IsUnplaced name := by
  have hhead := head?_of_spells h
  intro hunplaced
  cases hunplaced with
  | wildcard => cases hhead
  | primitive type => cases type <;> cases hhead
  | primitiveArray h' => cases eq_of_spells h h'

/-- The dots of the signature of a class are those of its name. -/
theorem mem_dot_iff_of_named {dimensions : Nat} {className : String}
    (h : (⟨dimensions, .named className⟩ : ArraySignature).Spells name) :
    '.' ∈ name.toList ↔ '.' ∈ className.toList := by
  obtain ⟨-, element, helement, htext⟩ := h
  cases helement with
  | named =>
    have hbracket : '.' ∉ List.replicate dimensions '[' := fun hdot =>
      absurd (List.eq_of_mem_replicate hdot) (by decide)
    rw [htext]
    simp [hbracket]

theorem IsQualifiedArray.mem_dot (h : IsQualifiedArray name) : '.' ∈ name.toList := by
  obtain ⟨dimensions, className, hdot, hspells⟩ := h
  exact (mem_dot_iff_of_named hspells).2 hdot

/-! ### Where a reference lies -/

/-- **Where the reference for a name lies** that is reported from `start` up to `stop`. The name
says which of the four cases it is. -/
inductive LiesAt (name : String) (start stop : Int) : Position → Prop
  | unplaced (h : IsUnplaced name) : LiesAt name start stop ⟨0, 0⟩
  | simple (h : ¬ IsUnplaced name) (hdot : '.' ∉ name.toList) :
    LiesAt name start stop (.spanning start (stop - 1))
  | qualified (hdot : '.' ∈ name.toList) (harray : ¬ IsQualifiedArray name) :
    LiesAt name start stop ⟨start, if start < stop then start + name.utf8ByteSize - 1 else start⟩
  | qualifiedArray (h : IsQualifiedArray name) : LiesAt name start stop ⟨start, stop - 1⟩

/-- The range of a layout, which reaches as far as the name does. -/
theorem range_reaching_layout (shape : TypeShape) (name : String) (start stop : Int) :
    (reaching shape (Position.layout (Dotted.split name) start stop)).range =
      ⟨start, if start < stop then start + name.utf8ByteSize - 1 else start⟩ := by
  have hstart := Position.firstStart_layout (Dotted.split_ne_nil name) start stop
  have hstop := Position.lastStop_layout (Dotted.split_ne_nil name) start stop
  rw [Dotted.join_split] at hstop
  rw [range, reaching, hstart, hstop]

/-- Type arguments and marks do not matter to where the reference for a name lies. -/
theorem IsNamed.liesAt (h : IsNamed o name start stop arguments r) :
    LiesAt name start stop r.range := by
  cases h with
  | wildcard h => exact .unplaced (h ▸ .wildcard)
  | @primitive type h => exact .unplaced (h ▸ .primitive type)
  | primitiveArray h => exact .unplaced (.primitiveArray h)
  | array h hdot _ =>
    exact .simple (not_isUnplaced_of_named h) (mt (mem_dot_iff_of_named h).1 hdot)
  | @qualifiedArray dimensions className _ h hdot hlayout =>
    have hstart := Position.firstStart_layout (Dotted.split_ne_nil className) start
      (stop - 2 * dimensions)
    rw [hlayout, range, withRange, hstart]
    exact .qualifiedArray ⟨dimensions, className, hdot, h⟩
  | single h hdot _ | parameterizedSingle h hdot _ => exact .simple h.not_isUnplaced hdot
  | qualified h hdot _ hlayout =>
    rw [range_ignoringRawTypes, hlayout, range_reaching_layout]
    exact .qualified hdot h.not_isQualifiedArray
  | parameterizedQualified h hdot _ hlayout =>
    rw [hlayout, range_reaching_layout]
    exact .qualified hdot h.not_isQualifiedArray

/-- **Where the reference for a descriptor lies.** Negative offsets count as zero. -/
theorem liesAt_of_build (h : build o d = .ok r) :
    LiesAt d.name (max d.start 0) (max d.stop 0) r.range := by
  rw [build_eq] at h
  obtain ⟨arguments, -, h⟩ := bind_eq_ok.1 h
  exact (isNamed_of_ofName h).liesAt

/-- The offsets of a descriptor that is made up or written somewhere count as they are. -/
theorem liesAt_of_isInvented_or_isWritten (h : build o d = .ok r)
    (hd : d.IsInvented ∨ d.IsWritten) : LiesAt d.name d.start d.stop r.range := by
  have hlies := liesAt_of_build h
  have hends : 0 ≤ d.start ∧ 0 ≤ d.stop := by
    rcases hd with ⟨hstart, hstop⟩ | ⟨hstart, hstop⟩ <;> omega
  rwa [Int.max_eq_left hends.1, Int.max_eq_left hends.2] at hlies

/-! ### References without text -/

/-- **When a reference is taken for one without text**: if it is a simple name, or an array of one,
and the front end reports one byte at the beginning of the file for it, or nothing at all. -/
theorem range_eq_nonExistent_iff (h : build o d = .ok r) :
    r.range = .nonExistent ↔
      d.start ≤ 0 ∧ d.stop ≤ 1 ∧ '.' ∉ d.name.toList ∧ ¬ IsUnplaced d.name := by
  have hlies := liesAt_of_build h
  generalize r.range = range at hlies
  -- no range but that of a node without text starts below zero
  have hne (stop : Int) : (⟨max d.start 0, stop⟩ : Position) ≠ .nonExistent := fun heq => by
    have hstart := congrArg Position.start heq
    have hmark : Position.nonExistent.start = -1 := rfl
    dsimp only at hstart
    omega
  cases hlies with
  | unplaced hunplaced => exact iff_of_false (by decide) fun h => h.2.2.2 hunplaced
  | simple hplaced hdot =>
    rw [Position.spanning_eq_nonExistent_iff]
    constructor
    · intro hrange
      exact ⟨by omega, by omega, hdot, hplaced⟩
    · rintro ⟨hstart, hstop, -, -⟩
      omega
  | qualified hdot _ => exact iff_of_false (hne _) fun h => h.2.2.1 hdot
  | qualifiedArray harray => exact iff_of_false (hne _) fun h => h.2.2.1 harray.mem_dot

/-- Any other reference starts where its descriptor does, if it has a place. -/
theorem start_of_build (h : build o d = .ok r) (hplaced : ¬ IsUnplaced d.name)
    (hne : r.range ≠ .nonExistent) : r.start = max d.start 0 := by
  have hlies := liesAt_of_build h
  have hstart : r.start = r.range.start := rfl
  rw [hstart]
  generalize r.range = range at hlies hne
  cases hlies with
  | unplaced hunplaced => exact absurd hunplaced hplaced
  | simple _ _ =>
    rw [Position.spanning_of_not fun hmark => hne (if_pos hmark)]
  | qualified _ _ => rfl
  | qualifiedArray _ => rfl

/-- **A written reference keeps its place**, except for a simple name, or an array of one, that is
the first byte of the file. -/
theorem keeps_start_iff (h : build o d = .ok r) (hd : d.IsWritten) (hplaced : ¬ IsUnplaced d.name) :
    (r.start = d.start ∧ r.range ≠ .nonExistent) ↔
      ¬ (d.start = 0 ∧ d.stop = 1 ∧ '.' ∉ d.name.toList) := by
  obtain ⟨hstart, hstop⟩ := hd
  have hmark := range_eq_nonExistent_iff h
  constructor
  · rintro ⟨-, hne⟩ ⟨hzero, hone, hdot⟩
    exact hne (hmark.2 ⟨by omega, by omega, hdot, hplaced⟩)
  · intro hfirst
    have hne : r.range ≠ .nonExistent := fun heq => by
      obtain ⟨hzero, hone, hdot, -⟩ := hmark.1 heq
      exact hfirst ⟨by omega, by omega, hdot⟩
    have hkept := start_of_build h hplaced hne
    exact ⟨by omega, hne⟩

/-! ### Valid ranges -/

/-- The range of a qualified name that is no array never ends before it starts. -/
theorem le_of_mem_dot (hdot : '.' ∈ name.toList) (start stop : Int) :
    start ≤ if start < stop then start + name.utf8ByteSize - 1 else start := by
  have hbytes : name.utf8ByteSize ≠ 0 := by
    rw [Ne, String.utf8ByteSize_eq_zero_iff]
    rintro rfl
    exact absurd hdot (by decide)
  split <;> omega

/-- **The range of a reference fits in 32 bits** if its descriptor does. -/
theorem unpack_pack_range (h : build o d = .ok r) (hd : d.IsInvented ∨ d.IsWritten)
    (hfits : d.Fits) : Position.unpack r.range.pack = r.range := by
  have hstop := hfits.stop
  have hname := hfits.name
  have hends : 0 ≤ d.start ∧ d.start ≤ d.stop := by
    rcases hd with ⟨hstart, hstop⟩ | ⟨hstart, hstop⟩ <;> omega
  have hlies := liesAt_of_isInvented_or_isWritten h hd
  generalize r.range = range at hlies
  cases hlies with
  | unplaced => decide
  | simple =>
    rw [Position.spanning]
    split
    · decide
    · exact Position.unpack_pack (by dsimp only; omega) (by dsimp only; omega)
  | qualified =>
    -- the only end that is computed from the name, and not from the end that is reported
    exact Position.unpack_pack (by dsimp only; omega) (by dsimp only; split <;> omega)
  | qualifiedArray => exact Position.unpack_pack (by dsimp only; omega) (by dsimp only; omega)

/-- The range of a reference is valid except for one kind of them. -/
theorem isValid_iff_of_build (h : build o d = .ok r) (hd : d.IsInvented ∨ d.IsWritten) :
    (r.range.IsValid ↔ ¬ (d.IsInvented ∧ IsQualifiedArray d.name)) ∧
      (d.IsInvented → IsQualifiedArray d.name → r.range = ⟨0, -1⟩) := by
  have hlies := liesAt_of_isInvented_or_isWritten h hd
  generalize r.range = range at hlies
  cases hlies with
  | unplaced hunplaced =>
    have harray : ¬ IsQualifiedArray d.name := fun harray => hunplaced.not_mem_dot harray.mem_dot
    exact ⟨iff_of_true (.inl (Int.le_refl 0)) fun h => harray h.2, fun _ h => absurd h harray⟩
  | simple _ hdot =>
    have harray : ¬ IsQualifiedArray d.name := fun harray => hdot harray.mem_dot
    refine ⟨iff_of_true (Position.isValid_spanning_iff.2 ?_) fun h => harray h.2,
      fun _ h => absurd h harray⟩
    -- what is made up becomes the range of a node without text
    rcases hd with ⟨hstart, hstop⟩ | ⟨hstart, hstop⟩ <;> omega
  | qualified hdot harray =>
    exact ⟨iff_of_true (.inl (le_of_mem_dot hdot _ _)) fun h => harray h.2,
      fun _ h => absurd h harray⟩
  | qualifiedArray harray =>
    rcases hd with ⟨hstart, hstop⟩ | ⟨hstart, hstop⟩
    · rw [hstart, hstop]
      exact ⟨iff_of_false (by decide) fun h => h ⟨⟨hstart, hstop⟩, harray⟩, fun _ _ => rfl⟩
    · have hwritten : ¬ d.IsInvented := fun ⟨hzero, hzero'⟩ => by omega
      have hle : d.start ≤ d.stop - 1 := by omega
      exact ⟨iff_of_true (.inl hle) fun h => hwritten h.1, fun h => absurd h hwritten⟩

/-- **When the range of a reference is valid.** The reference for a descriptor that is made up or
written somewhere has a valid range, except for an array of a qualified class that is made up: its
range starts at zero and ends in front of that. Both ends fit in 32 bits if the descriptor does. -/
theorem isValid_range_iff (h : build o d = .ok r) (hd : d.IsInvented ∨ d.IsWritten)
    (hfits : d.Fits) :
    (r.range.IsValid ↔ ¬ (d.IsInvented ∧ IsQualifiedArray d.name)) ∧
      (d.IsInvented → IsQualifiedArray d.name → r.range = ⟨0, -1⟩) ∧
      Position.unpack r.range.pack = r.range := by
  obtain ⟨hvalid, hinvented⟩ := isValid_iff_of_build h hd
  exact ⟨hvalid, hinvented, unpack_pack_range h hd hfits⟩

/-- An array of texts that is written from the third byte on. -/
theorem isValid_range_iff_written :
    ∃ r, build {} ⟨"[Ljava.lang.String;", 2, 10, [], false⟩ = .ok r ∧ r.range.IsValid ∧
      r.range = ⟨2, 9⟩ ∧ Position.unpack r.range.pack = r.range := by
  obtain ⟨r, hr, hrange⟩ : ∃ r, build {} ⟨"[Ljava.lang.String;", 2, 10, [], false⟩ = .ok r ∧
      r.range = ⟨2, 9⟩ := exists_of_map_toOption (by decide +kernel)
  have hwritten : (⟨"[Ljava.lang.String;", 2, 10, [], false⟩ : Source.Descriptor).IsWritten :=
    ⟨by decide, by decide⟩
  have hfits : (⟨"[Ljava.lang.String;", 2, 10, [], false⟩ : Source.Descriptor).Fits :=
    ⟨by decide, fun _ => by decide +kernel⟩
  obtain ⟨hvalid, -, hpacked⟩ := isValid_range_iff hr (.inr hwritten) hfits
  refine ⟨r, hr, hvalid.2 fun h => ?_, hrange, hpacked⟩
  exact absurd h.1.1 (by decide)

/-- **An array that is not written anywhere** has a range that is neither one of a text nor the mark
of a node without text. -/
theorem invented_array_range :
    (Source.Descriptor.named "[Ljava.lang.String;").IsInvented ∧
      ∃ r, build {} (.named "[Ljava.lang.String;") = .ok r ∧ ¬ r.range.IsValid := by
  obtain ⟨r, hr, hrange⟩ : ∃ r, build {} (.named "[Ljava.lang.String;") = .ok r ∧
      r.range = ⟨0, -1⟩ := exists_of_map_toOption (by decide +kernel)
  refine ⟨⟨rfl, rfl⟩, r, hr, ?_⟩
  rw [hrange]
  decide

end TypeReference

end HostBridge
