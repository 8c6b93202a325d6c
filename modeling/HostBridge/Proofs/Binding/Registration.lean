import HostBridge.Proofs.Binding.Naming
import Mathlib.Data.List.Perm.Basic

/-!
# The order of registrations

The first registration of a name stays, so in general the order of registrations decides what a name
leads to. It does not if the identities are segmented, since then there is only one of each name.
`Environment.Knows e known` says that the environment `e` holds exactly the identities of which
`known` is true, each of them once; registering more of them keeps this, `Knows.registerAll`, and an
environment that knows the same identities answers in the same way, `Knows.lookup?_congr`, and has
the same size, `Knows.size_congr`.
-/

namespace HostBridge

namespace Environment

variable {e e' : Environment} {known : TypeBinding → Prop} {b : TypeBinding}
  {bs : List TypeBinding}

/-- **An environment with exactly these identities**, which are segmented. No two of them have the
same name. -/
structure Knows (e : Environment) (known : TypeBinding → Prop) : Prop where
  mem : ∀ b, b ∈ e.bindings ↔ known b
  segmented : ∀ b, known b → b.IsSegmented
  distinct : (e.bindings.map (·.qualifiedName)).Nodup

theorem Knows.empty : Knows {} fun _ => False where
  mem _ := List.mem_nil_iff _
  segmented _ := False.elim
  distinct := List.nodup_nil

theorem Knows.congr {known' : TypeBinding → Prop} (h : e.Knows known)
    (hknown : ∀ b, known b ↔ known' b) : e.Knows known' where
  mem b := (h.mem b).trans (hknown b)
  segmented b hb := h.segmented b ((hknown b).2 hb)
  distinct := h.distinct

/-- A name leads to the one known identity that bears it. -/
theorem Knows.lookup?_eq_some_iff (h : e.Knows known) {name : String} :
    e.lookup? name = some b ↔ known b ∧ b.qualifiedName = name := by
  constructor
  · intro hb
    exact ⟨(h.mem b).1 (List.mem_of_find?_eq_some hb), by simpa using List.find?_some hb⟩
  · rintro ⟨hb, rfl⟩
    -- some identity is found, and there is only one of this name
    have hsome : (e.lookup? b.qualifiedName).isSome :=
      List.find?_isSome.2 ⟨b, (h.mem b).2 hb, by simp⟩
    obtain ⟨c, hc⟩ := Option.isSome_iff_exists.1 hsome
    have hname : c.qualifiedName = b.qualifiedName := by simpa using List.find?_some hc
    have hknown := (h.mem c).1 (List.mem_of_find?_eq_some hc)
    rw [hc, (h.segmented c hknown).eq (h.segmented b hb) hname]

/-- Registering an identity adds it, unless it is known. -/
theorem Knows.register (h : e.Knows known) (hb : b.IsSegmented) :
    (e.register b).Knows fun c => known c ∨ c = b := by
  rw [Environment.register]
  split
  · next htaken =>
    -- the name is taken by this very identity
    obtain ⟨c, hc⟩ := Option.isSome_iff_exists.1 htaken
    obtain ⟨hknown, hname⟩ := h.lookup?_eq_some_iff.1 hc
    obtain rfl := (h.segmented c hknown).eq hb hname
    refine h.congr fun d => ⟨Or.inl, ?_⟩
    rintro (hd | rfl)
    · exact hd
    · exact hknown
  · next hfree =>
    refine ⟨fun c => ?_, ?_, ?_⟩
    · rw [List.mem_append, List.mem_singleton, h.mem c]
    · rintro c (hc | rfl)
      · exact h.segmented c hc
      · exact hb
    · rw [List.map_append, List.nodup_append]
      refine ⟨h.distinct, List.nodup_singleton _, fun name hname name' hname' heq => hfree ?_⟩
      obtain ⟨c, hc, rfl⟩ := List.mem_map.1 hname
      obtain rfl := List.mem_singleton.1 hname'
      exact List.find?_isSome.2 ⟨c, hc, by simp [heq]⟩

/-- **Registering identities** adds them, whatever their order. -/
theorem Knows.registerAll (h : e.Knows known) (hbs : ∀ b ∈ bs, b.IsSegmented) :
    (e.registerAll bs).Knows fun c => known c ∨ c ∈ bs := by
  induction bs generalizing e known with
  | nil => exact h.congr fun c => by simp
  | cons b bs ih =>
    have hregister := h.register (hbs b List.mem_cons_self)
    refine (ih hregister fun c hc => hbs c (List.mem_cons_of_mem b hc)).congr fun c => ?_
    rw [List.mem_cons, or_assoc]

/-- Environments that know the same identities answer in the same way. -/
theorem Knows.lookup?_congr (h : e.Knows known) (h' : e'.Knows known) (name : String) :
    e.lookup? name = e'.lookup? name :=
  Option.ext fun _ => h.lookup?_eq_some_iff.trans h'.lookup?_eq_some_iff.symm

/-- Environments that know the same identities have the same size. -/
theorem Knows.size_congr (h : e.Knows known) (h' : e'.Knows known) : e.size = e'.size := by
  have hperm : e.bindings.Perm e'.bindings :=
    (List.perm_ext_iff_of_nodup h.distinct.of_map h'.distinct.of_map).2 fun b =>
      (h.mem b).trans (h'.mem b).symm
  exact hperm.length_eq

end Environment

end HostBridge
