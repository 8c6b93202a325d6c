import HostBridge.Proofs.Declaration.Emitted
import HostBridge.Proofs.TypeReference.Ranges

/-!
# What is written keeps its place

The references and arguments of a declaration tree point to where they are written. The front end
reports offsets just past the last byte, and zeros for what it made up; the host wants offsets of
the last byte, and a mark for what has no text. The mark is given after the end has been moved back
by one byte, so one byte at the beginning of a file is taken for nothing:

* `Argument.StandsFor.keepsPlace` — which arguments keep the place of their parameter;
* `DeclarationTree.keeps_places` — which references and arguments keep their place, and which of
  them carry the mark;
* `TypeReference.first_byte_lost` — a class name at the beginning of a file that does not.
-/

namespace HostBridge

/-! ### Arguments -/

/-- A parameter with text of its own. -/
def Source.Parameter.IsWritten (p : Parameter) : Prop := 0 ≤ p.start ∧ p.start < p.stop

/-- **An argument that keeps the place of a parameter**, unless that is the first byte of the file.
Beside those the mark stands for parameters that are reported without a byte at the beginning of the
file, or with the offsets that the mark is made from. The end is moved back by one byte, for which
32 bits have to leave room. -/
structure Argument.KeepsPlaceOf (a : Argument) (p : Source.Parameter) : Prop where
  name : a.name = p.name
  written : p.IsWritten → (a.position = ⟨p.start, p.stop - 1⟩ ↔ ¬ (p.start = 0 ∧ p.stop = 1))
  nonExistent : -0x80000000 < p.stop → (a.position = .nonExistent ↔
    (p.start = 0 ∧ p.stop ≤ 1) ∨ (p.start = -1 ∧ p.stop = -1))

theorem Argument.StandsFor.keepsPlace {a : Argument} {p : Source.Parameter} (h : a.StandsFor p) :
    a.KeepsPlaceOf p := by
  have hmark : a.position = .nonExistent ↔
      (p.start = 0 ∧ p.stop ≤ 1) ∨ (p.start = -1 ∧ p.stop = -1) := by
    rw [h.position, Position.spanning_eq_nonExistent_iff]
    omega
  refine ⟨h.name, fun ⟨hstart, hstop⟩ => ⟨fun hkept hfirst => ?_, fun hfirst => ?_⟩,
    fun _ => hmark⟩
  · -- the mark does not start where a text does
    have hlost := hmark.2 (.inl ⟨hfirst.1, by omega⟩)
    have hneg : p.start = -1 := congrArg Position.start (hkept.symm.trans hlost)
    omega
  · rw [h.position, Position.spanning_of_not]
    omega

/-! ### Trees -/

namespace DeclarationTree

open MethodDeclaration TypeReference

/-- The arguments of a method keep the places of the parameters that are left. -/
theorem arguments_keep_places {o : Options} {m : Source.Module} {t : DeclarationTree}
    (h : build o m = .ok t) {type : TypeDeclaration} (htype : type ∈ t.walk)
    {e : MethodDeclaration} (he : e ∈ type.content.methods) :
    ∃ c ∈ m.primaryClasses, e = defaultConstructor c (declaredName c) ∨
      ∃ member ∈ c.members, ∃ k ≤ member.node.defaults,
        List.Forall₂ (fun p a => a.KeepsPlaceOf p)
          (withoutLast (·.hasDefault) k member.node.parameters) e.arguments := by
  obtain ⟨c, hc, hdefault | ⟨member, hmember, d, hd, k, hk, rfl⟩⟩ :=
    origin_of_mem_methods h htype he
  · exact ⟨c, hc, .inl hdefault⟩
  · have hstand := (isBuiltFrom_of_ofMember hd).arguments.standFor
    have hkept := hstand.imp fun _ _ => Argument.StandsFor.keepsPlace
    exact ⟨c, hc, .inr ⟨member, hmember, k, hk, forall₂_callForm hkept k⟩⟩

/-- **What is written keeps its place.** A reference that is built for a written descriptor, other
than a wildcard, a primitive type or an array of one, starts where the descriptor does and does not
carry the mark of a node without text, except for a name without a dot that is the first byte of the
file. In general the mark stands for a name without a dot that is reported to end within the first
byte of the file. The arguments of a declaration of a tree keep, with the same exception, the places
of the parameters of a member, of which the last ones with a default may have been left out. -/
theorem keeps_places (o : Options) :
    (∀ d r, TypeReference.build o d = .ok r →
      (d.IsWritten → ¬ IsUnplaced d.name →
        ((r.start = d.start ∧ r.range ≠ .nonExistent) ↔
          ¬ (d.start = 0 ∧ d.stop = 1 ∧ '.' ∉ d.name.toList))) ∧
      (r.range = .nonExistent ↔
        d.start ≤ 0 ∧ d.stop ≤ 1 ∧ '.' ∉ d.name.toList ∧ ¬ IsUnplaced d.name)) ∧
    ∀ m t, build o m = .ok t → ∀ type ∈ t.walk, ∀ e ∈ type.content.methods,
      ∃ c ∈ m.primaryClasses, e = defaultConstructor c (declaredName c) ∨
        ∃ member ∈ c.members, ∃ k ≤ member.node.defaults,
          List.Forall₂ (fun p a => a.KeepsPlaceOf p)
            (withoutLast (·.hasDefault) k member.node.parameters) e.arguments :=
  ⟨fun _ _ h => ⟨keeps_start_iff h, range_eq_nonExistent_iff h⟩,
    fun _ _ h _ htype _ he => arguments_keep_places h htype he⟩

end DeclarationTree

/-- A class `A` with a method `run(A next)`. -/
def Source.Module.withWrittenParameter : Source.Module :=
  let next : Parameter := .plain "next" ((Descriptor.named "A").placedAt 18 19) 18 24
  let run := (Method.plain "run" {}).withParameter next
  (empty ⟨1⟩).withClass ((Class.plain "A" {}).withMethod run)

/-- A name of one letter, one byte into the file, keeps its place, and so does an argument. -/
theorem DeclarationTree.keeps_places_second_byte :
    (∃ r, TypeReference.build {} ⟨"A", 1, 2, [], false⟩ = .ok r ∧ r.start = 1 ∧
      r.range ≠ .nonExistent) ∧
    ∃ t, build {} .withWrittenParameter = .ok t ∧
      (t.walk.flatMap fun type => type.content.methods.flatMap fun e =>
        e.arguments.map (·.position)) = [⟨18, 23⟩] ∧
      ∀ type ∈ t.walk, ∀ e ∈ type.content.methods, e.arguments ≠ [] →
        ∃ p : Source.Parameter, p.IsWritten ∧
          List.Forall₂ (fun p a => a.KeepsPlaceOf p) [p] e.arguments := by
  obtain ⟨hreferences, htrees⟩ := keeps_places {}
  constructor
  · obtain ⟨r, hr, -⟩ : ∃ r, TypeReference.build {} ⟨"A", 1, 2, [], false⟩ = .ok r ∧
        r.start = 1 := exists_of_map_toOption (by decide +kernel)
    have hplain : TypeReference.IsPlain "A" :=
      ⟨by decide, by decide, fun type => by cases type <;> decide⟩
    have hkept := (hreferences _ r hr).1 ⟨by decide, by decide⟩ hplain.not_isUnplaced
    exact ⟨r, hr, hkept.2 (by decide)⟩
  · obtain ⟨t, ht, hpositions⟩ : ∃ t, build {} .withWrittenParameter = .ok t ∧
        (t.walk.flatMap fun type => type.content.methods.flatMap fun e =>
          e.arguments.map (·.position)) = [⟨18, 23⟩] := exists_of_map_toOption (by decide +kernel)
    refine ⟨t, ht, hpositions, fun type htype e he hsome => ?_⟩
    obtain ⟨c, hc, rfl | ⟨member, hmember, k, -, hkept⟩⟩ := htrees _ t ht type htype e he
    · exact absurd rfl hsome
    · -- there is one class with one member, whose parameter has no default
      obtain rfl := List.mem_singleton.1 hc
      obtain rfl := List.mem_singleton.1 hmember
      exact ⟨_, ⟨by decide, by decide⟩, hkept⟩

/-- **A name at the beginning of a file** that consists of one letter is taken for one without
text. -/
theorem TypeReference.first_byte_lost :
    (⟨"A", 0, 1, [], false⟩ : Source.Descriptor).IsWritten ∧ ¬ IsUnplaced "A" ∧
      ∃ r, build {} ⟨"A", 0, 1, [], false⟩ = .ok r ∧ r.start ≠ 0 ∧ r.range = .nonExistent := by
  obtain ⟨r, hr, hstart, hrange⟩ : ∃ r, build {} ⟨"A", 0, 1, [], false⟩ = .ok r ∧
      r.start = -1 ∧ r.range = .nonExistent := by
    obtain ⟨r, hr, heq⟩ : ∃ r, build {} ⟨"A", 0, 1, [], false⟩ = .ok r ∧
        (r.start, r.range) = (-1, .nonExistent) := exists_of_map_toOption (by decide +kernel)
    exact ⟨r, hr, congrArg Prod.fst heq, congrArg Prod.snd heq⟩
  have hplain : IsPlain "A" := ⟨by decide, by decide, fun type => by cases type <;> decide⟩
  exact ⟨⟨by decide, by decide⟩, hplain.not_isUnplaced, r, hr, by rw [hstart]; decide, hrange⟩

end HostBridge
