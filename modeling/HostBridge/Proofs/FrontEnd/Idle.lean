import HostBridge.Proofs.FrontEnd.Release

/-!
# Driving that has nothing to do

Driving without a fault reaches the target, unless the front end has got further before:
`Recording.reached_compile`. So driving to the same target again has nothing to do,
`Recording.compile_idle`.

A recording with neither messages nor faults is clean, `Recording.IsClean`. There is nothing but the
phase that driving can change of a clean one, `Recording.IsClean.compile_eq`.
-/

namespace HostBridge

namespace Phase

/-- The later of two phases. -/
def later (a b : Phase) : Phase := if a ≤ b then b else a

theorem later_self (a : Phase) : a.later a = a := by cases a <;> rfl

theorem later_comm (a b : Phase) : a.later b = b.later a := by
  cases a <;> cases b <;> rfl

theorem number_later (a b : Phase) : (a.later b).number = max a.number b.number := by
  rw [later]
  split
  · next hle => exact (Nat.max_eq_right hle).symm
  · next hle => exact (Nat.max_eq_left (Nat.le_of_not_le hle)).symm

theorem number_injective : Function.Injective number := by
  intro a b
  cases a <;> cases b <;> first | exact fun _ => rfl | exact fun h => absurd h (by decide)

theorem later_assoc (a b c : Phase) : (a.later b).later c = a.later (b.later c) := by
  -- by way of the numbers, since going through all triples of phases is slow
  apply number_injective
  rw [number_later, number_later, number_later, number_later, Nat.max_assoc]

/-- There is nothing to go through exactly if the target has been reached. -/
theorem stepsTo_eq_nil_iff {current target : Phase} :
    stepsTo current target = [] ↔ current.later target = current := by
  cases current <;> cases target <;> decide

/-- The first step leads no further than all of them. -/
theorem later_next {current target : Phase} (h : stepsTo current target ≠ []) :
    current.next.later target = current.later target := by
  revert h
  cases current <;> cases target <;> decide

end Phase

namespace Recording

variable {f : Recording} {target : Phase}

/-- Driving without a fault reaches the target. -/
theorem reached_compile (h : (f.compile target).2 = none) :
    (f.compile target).1.reached = f.reached.later target := by
  -- by induction on the phases to go, which at any time are the steps from the phase reached
  have run : ∀ phases f, f.reached.stepsTo target = phases → (advance phases f).2 = none →
      (advance phases f).1.reached = f.reached.later target := by
    intro phases
    induction phases with
    | nil => exact fun f hsteps _ => (Phase.stepsTo_eq_nil_iff.1 hsteps).symm
    | cons phase phases ih =>
      intro f hsteps hnone
      rcases f.reached.stepsTo_cases target with hnil | ⟨-, hcons⟩
      · exact absurd (hsteps.symm.trans hnil) (List.cons_ne_nil _ _)
      · obtain ⟨rfl, rfl⟩ := List.cons.inj (hcons.symm.trans hsteps)
        rw [advance] at hnone ⊢
        split at hnone
        · -- a fault would have stopped it
          exact absurd hnone (Option.some_ne_none _)
        · rw [← Phase.later_next (hsteps ▸ List.cons_ne_nil _ _)]
          exact ih _ rfl hnone
  exact run _ f rfl h

theorem compile_of_reached (h : f.reached.later target = f.reached) :
    f.compile target = (f, none) := by
  rw [compile, Phase.stepsTo_eq_nil_iff.2 h, advance]

/-- **Driving again** to the same target has nothing to do, even if messages have been taken out of
a collector meanwhile. -/
theorem compile_idle (h : (f.compile target).2 = none) :
    (f.compile target).1.compile target = ((f.compile target).1, none) ∧
      ∀ id messages, ((f.compile target).1.setCollector id messages).compile target =
        ((f.compile target).1.setCollector id messages, none) := by
  have hreached : (f.compile target).1.reached.later target = (f.compile target).1.reached := by
    rw [reached_compile h, Phase.later_assoc, Phase.later_self]
  exact ⟨compile_of_reached hreached, fun id messages => compile_of_reached hreached⟩

/-! ### Clean recordings -/

/-- **A clean recording**: neither messages nor faults are scheduled, and the collectors are empty,
as they are in any recording that has not been driven. -/
structure IsClean (r : Recording) : Prop where
  pending : ∀ u ∈ r.units, u.pending = []
  collectors : ∀ u ∈ r.units, u.collector = []
  faults : r.faults = []

/-- A clean recording is clean at any phase. -/
theorem IsClean.moved {r : Recording} (h : r.IsClean) (reached : Phase) :
    ({ r with reached } : Recording).IsClean :=
  ⟨h.pending, h.collectors, h.faults⟩

/-- Reaching a phase changes nothing else of a clean recording. -/
theorem IsClean.reach_eq {r : Recording} (h : r.IsClean) (phase : Phase) :
    r.reach phase = { r with reached := phase } := by
  have hunits : r.units.map (·.release phase) = r.units := by
    refine (List.map_congr_left fun u hu => ?_).trans (List.map_id _)
    -- nothing is scheduled, so nothing is released
    have hpending := h.pending u hu
    cases u
    dsimp only at hpending
    subst hpending
    simp [RecordedUnit.release]
  rw [reach, hunits]

/-- **Driving a clean recording** only moves it on. -/
theorem IsClean.compile_eq {r : Recording} (h : r.IsClean) (target : Phase) :
    r.compile target = ({ r with reached := r.reached.later target }, none) := by
  -- by induction on the phases to go; the phase reached is all that changes on the way
  have run : ∀ phases reached, Phase.stepsTo reached target = phases →
      advance phases { r with reached } = ({ r with reached := reached.later target }, none) := by
    intro phases
    induction phases with
    | nil =>
      intro reached hsteps
      rw [Phase.stepsTo_eq_nil_iff.1 hsteps, advance]
    | cons phase phases ih =>
      intro reached hsteps
      rcases reached.stepsTo_cases target with hnil | ⟨-, hcons⟩
      · exact absurd (hsteps.symm.trans hnil) (List.cons_ne_nil _ _)
      · obtain ⟨rfl, rfl⟩ := List.cons.inj (hcons.symm.trans hsteps)
        have hreach : ({ r with reached } : Recording).reach reached.next =
            { r with reached := reached.next } :=
          (h.moved reached).reach_eq _
        rw [advance, hreach]
        dsimp only
        rw [h.faults, takeFault?, ← h.faults, ih _ rfl,
          Phase.later_next (hsteps ▸ List.cons_ne_nil _ _)]
  exact run _ r.reached rfl

end Recording

end HostBridge
