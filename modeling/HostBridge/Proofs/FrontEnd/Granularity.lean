import HostBridge.Proofs.FrontEnd.Raising

/-!
# The granularity of driving

The host may drive the front end to a phase in one go, or go there in small steps; either way a
fault may stop it anywhere, after which it is driven on. This file shows that the size of the steps
makes no difference, `Recording.granularity_irrelevant`.

What one call does is said by two rules. A target that has been reached has no effect,
`compile_of_le`; otherwise the next phase is reached, and what happens there depends on the faults
scheduled for it but not on the target, `compile_of_lt`. So a call with a later target begins as one
with an earlier target does, and goes on where that one ends, `compile_later`. From this draining
to one target and then to another is draining to the later of the two, `Drains.andThen`.

The messages on the way are accounted for by `Recording.Advanced f g`: those of a unit that have
moved and those that are pending still make up what was pending at `f`, and as soon as a phase has
been reached, the ones that have moved are those scheduled for the phases so far.
-/

namespace HostBridge

/-! ### Phases -/

namespace Phase

variable {a b c : Phase}

/-- The latest of some phases. Of none it is the first phase of all. -/
def latest (phases : List Phase) : Phase := phases.foldr later initialization

theorem later_eq_left (h : b ≤ a) : a.later b = a := by
  apply number_injective
  rw [number_later]
  exact Nat.max_eq_left h

theorem later_eq_right (h : a ≤ b) : a.later b = b := by
  rw [later_comm, later_eq_left h]

theorem le_later_left (a b : Phase) : a ≤ a.later b := by
  show a.number ≤ (a.later b).number
  rw [number_later]
  exact Nat.le_max_left _ _

theorem initialization_le (a : Phase) : initialization ≤ a := by
  cases a <;> decide

theorem le_antisymm (hab : a ≤ b) (hba : b ≤ a) : a = b :=
  number_injective (Nat.le_antisymm hab hba)

/-- Before a target the next phase has the next number. -/
theorem number_next (h : a < b) : a.next.number = a.number + 1 := by
  have hlast : a ≠ finalization := by
    rintro rfl
    cases b <;> exact absurd h (by decide)
  cases a <;> first | rfl | exact absurd rfl hlast

end Phase

namespace Recording

variable {f g h : Recording} {a b target : Phase} {fault : Source.CompileFault}
  {raised raised' : List Source.CompileFault}

/-! ### One call -/

/-- **A target that has been reached** has no effect. -/
theorem compile_of_le (hle : target ≤ f.reached) : f.compile target = (f, none) :=
  compile_of_reached (Phase.later_eq_left hle)

/-- **A target that has not been reached.** The next phase is reached, and its first fault is
raised. If there is none, driving goes on as if it had started there. -/
theorem compile_of_lt (hlt : f.reached < target) :
    f.compile target = match takeFault? f.reached.next f.faults with
      | some (fault, rest) => ({ f.reach f.reached.next with faults := rest }, some fault)
      | none => (f.reach f.reached.next).compile target := by
  rcases f.compile_next target with ⟨hnil, -⟩ | ⟨steps, -, -, hnext⟩
  · -- the target itself would be among the steps
    have hmem : target ∈ f.reached.stepsTo target := Phase.mem_stepsTo.2 ⟨hlt, Nat.le_refl _⟩
    rw [hnil] at hmem
    exact absurd hmem List.not_mem_nil
  · rcases hnext with ⟨fault, rest, htake, hcompile⟩ | ⟨htake, hcompile⟩
    · rw [htake]
      exact hcompile
    · rw [htake]
      exact hcompile

/-- **Induction over the phases to go** until a target has been reached. -/
theorem compile_induction {motive : Recording → Prop} (target : Phase)
    (idle : ∀ f : Recording, target ≤ f.reached → motive f)
    (step : ∀ f : Recording, f.reached < target → motive (f.reach f.reached.next) → motive f)
    (f : Recording) : motive f := by
  generalize hleft : target.number - f.reached.number = left
  induction left using Nat.strongRecOn generalizing f with
  | ind left ih =>
    by_cases hlt : f.reached < target
    · have hnext : (f.reach f.reached.next).reached.number = f.reached.number + 1 :=
        Phase.number_next hlt
      have hlt' : f.reached.number < target.number := hlt
      exact step f hlt (ih _ (by omega) _ rfl)
    · exact idle f (Nat.le_of_not_lt hlt)

/-- The phase reached never decreases. -/
theorem reached_le_compile (f : Recording) (target : Phase) :
    f.reached ≤ (f.compile target).1.reached := by
  induction f using compile_induction target with
  | idle f hle =>
    rw [compile_of_le hle]
    exact Nat.le_refl _
  | step f hlt ih =>
    have hnext : f.reached ≤ f.reached.next := by
      show f.reached.number ≤ f.reached.next.number
      rw [Phase.number_next hlt]
      exact Nat.le_succ _
    rw [compile_of_lt hlt]
    split
    · exact hnext
    · exact Nat.le_trans hnext ih

/-- **A later target.** A call begins as one with an earlier target does. A fault that stops the one
stops the other, and without a fault it goes on where the other one has ended. -/
theorem compile_later (f : Recording) (a b : Phase) :
    f.compile (a.later b) = match (f.compile a).2 with
      | some _ => f.compile a
      | none => (f.compile a).1.compile b := by
  induction f using compile_induction a with
  | idle f hle =>
    rw [compile_of_le hle]
    by_cases hb : b ≤ f.reached
    · -- neither of the two targets is ahead
      have hlater : a.later b ≤ f.reached := by
        show (a.later b).number ≤ f.reached.number
        rw [Phase.number_later]
        exact Nat.max_le.2 ⟨hle, hb⟩
      rw [compile_of_le hlater, compile_of_le hb]
    · have hab : a ≤ b := Nat.le_trans hle (Nat.le_of_not_le hb)
      rw [Phase.later_eq_right hab]
  | step f hlt ih =>
    have hlater : f.reached < a.later b := Nat.lt_of_lt_of_le hlt (Phase.le_later_left a b)
    rw [compile_of_lt hlater, compile_of_lt hlt]
    -- the next phase does the same for both targets
    cases htake : takeFault? f.reached.next f.faults with
    | some taken => rfl
    | none => exact ih

/-! ### Several targets -/

/-- A target that has been reached does not count in draining. -/
theorem Drains.later_of_le (hdrains : Drains b f raised g) (hle : a ≤ f.reached) :
    Drains (a.later b) f raised g := by
  have hcompile : ∀ f : Recording, a ≤ f.reached → f.compile (a.later b) = f.compile b := by
    intro f hle
    rw [compile_later, compile_of_le hle]
  induction hdrains with
  | quiet hquiet =>
    rw [← hcompile _ hle] at hquiet ⊢
    exact .quiet hquiet
  | @raised f _ _ _ hraised _ ih =>
    have hreached := f.reached_le_compile b
    have hrest := ih (Nat.le_trans hle hreached)
    rw [← hcompile _ hle] at hraised hrest
    exact .raised hraised hrest

/-- **Draining to one target and then to another** is draining to the later of the two. -/
theorem Drains.andThen (hdrains : Drains a f raised g) (hdrains' : Drains b g raised' h) :
    Drains (a.later b) f (raised ++ raised') h := by
  induction hdrains with
  | @quiet f hquiet =>
    -- the first target has been reached, and the call with the later one goes on from there
    have hle : a ≤ (f.compile a).1.reached := by
      rw [reached_compile hquiet, Phase.later_comm]
      exact Phase.le_later_left a f.reached
    refine (hdrains'.later_of_le hle).of_compile_eq ?_
    rw [compile_later, hquiet, compile_later, compile_of_le hle]
  | @raised f _ fault _ hraised _ ih =>
    -- the first fault is the same, and so is what it leaves behind
    have hsame : f.compile (a.later b) = f.compile a := by rw [compile_later, hraised]
    have hrest := ih hdrains'
    rw [← hsame] at hraised hrest
    exact .raised hraised hrest

/-- **Draining to several targets**, one after the other. The faults are those that are raised on
the way to any of them. -/
inductive DrainsAll : List Phase → Recording → List Source.CompileFault → Recording → Prop
  | nil (f : Recording) : DrainsAll [] f [] f
  | cons {target : Phase} {targets : List Phase} {f g h : Recording}
      {raised raised' : List Source.CompileFault} (hfirst : Drains target f raised g)
      (hrest : DrainsAll targets g raised' h) :
      DrainsAll (target :: targets) f (raised ++ raised') h

/-- Draining to several targets is draining to the latest of them. -/
theorem DrainsAll.drains_latest {targets : List Phase} (hall : DrainsAll targets f raised g) :
    Drains (Phase.latest targets) f raised g := by
  induction hall with
  | nil f =>
    have hidle := compile_of_le (Phase.initialization_le f.reached)
    have hquiet := Drains.quiet (congrArg Prod.snd hidle)
    rw [hidle] at hquiet
    exact hquiet
  | cons hfirst _ ih => exact hfirst.andThen ih

/-- Draining to several targets comes to an end. -/
theorem exists_drainsAll (f : Recording) (targets : List Phase) :
    ∃ raised g, DrainsAll targets f raised g := by
  induction targets generalizing f with
  | nil => exact ⟨[], f, .nil f⟩
  | cons target targets ih =>
    obtain ⟨g, hfirst, -⟩ := f.drains_raisedFaults target
    obtain ⟨raised, h, hrest⟩ := ih g
    exact ⟨_, h, .cons hfirst hrest⟩

/-! ### The messages on the way -/

/-- **A front end that has advanced** from `f` to `g`. The messages that a unit had pending have
moved to its collector, each of them once, or are still pending. If a phase has been reached
meanwhile, then those that have moved are the ones scheduled for the phases so far. -/
structure Advanced (f g : Recording) : Prop where
  reached : f.reached ≤ g.reached
  units : ∀ id u, f.unit? id = some u → ∃ moved kept : List ScheduledMessage,
    g.unit? id =
      some { u with pending := kept, collector := u.collector ++ moved.map (·.message) } ∧
    (moved ++ kept).Perm u.pending ∧
    (g.reached = f.reached → moved = []) ∧
    (g.reached ≠ f.reached →
      (∀ s ∈ moved, s.phase ≤ g.reached) ∧ ∀ s ∈ kept, g.reached < s.phase)

theorem Advanced.refl (f : Recording) : f.Advanced f where
  reached := Nat.le_refl _
  units id u hu := by
    refine ⟨[], u.pending, ?_, List.Perm.refl _, fun _ => rfl, fun hne => absurd rfl hne⟩
    rw [hu, List.map_nil, List.append_nil]

/-- The faults that are left do not count. -/
theorem Advanced.withFaults (hadv : f.Advanced g) (faults : List ScheduledFault) :
    f.Advanced { g with faults } :=
  ⟨hadv.reached, hadv.units⟩

/-- **One phase** moves what is scheduled for it and before. -/
theorem advanced_reach (hlt : f.reached < target) : f.Advanced (f.reach f.reached.next) where
  reached := by
    show f.reached.number ≤ f.reached.next.number
    rw [Phase.number_next hlt]
    exact Nat.le_succ _
  units id u hu := by
    refine ⟨u.pending.filter fun s => s.phase ≤ f.reached.next,
      u.pending.filter fun s => ¬ s.phase ≤ f.reached.next, ?_, ?_, fun heq => ?_, fun _ => ?_⟩
    · rw [unit?_reach, hu]
      rfl
    · simpa using List.filter_append_perm (fun s => decide (s.phase ≤ f.reached.next)) u.pending
    · -- the next phase is another one
      have hnumber := Phase.number_next hlt
      have hsame : f.reached.next.number = f.reached.number := congrArg Phase.number heq
      omega
    · refine ⟨fun s hs => ?_, fun s hs => ?_⟩
      · exact of_decide_eq_true (List.mem_filter.1 hs).2
      · exact Nat.lt_of_not_le (of_decide_eq_true (List.mem_filter.1 hs).2)

/-- Advancing twice is advancing. -/
theorem Advanced.trans (hfg : f.Advanced g) (hgh : g.Advanced h) : f.Advanced h where
  reached := Nat.le_trans hfg.reached hgh.reached
  units id u hu := by
    obtain ⟨moved, kept, hg, hperm, hnone, hsome⟩ := hfg.units id u hu
    obtain ⟨moved', kept', hh, hperm', hnone', hsome'⟩ := hgh.units id _ hg
    dsimp only at hperm'
    refine ⟨moved ++ moved', kept', ?_, ?_, fun heq => ?_, fun hne => ?_⟩
    · rw [hh, List.map_append, List.append_assoc]
    · rw [List.append_assoc]
      exact (hperm'.append_left moved).trans hperm
    · -- nothing has been reached in between either
      have hback : g.reached ≤ f.reached := heq ▸ hgh.reached
      have hsame : g.reached = f.reached := Phase.le_antisymm hback hfg.reached
      rw [hnone hsame, hnone' (heq.trans hsame.symm), List.append_nil]
    · by_cases hsame : h.reached = g.reached
      · -- all that has moved has moved on the way to `g`
        obtain ⟨hmoved, hkept⟩ := hsome (hsame ▸ hne)
        obtain rfl := hnone' hsame
        rw [hsame]
        refine ⟨fun s hs => hmoved s ?_, fun s hs => hkept s (hperm'.subset hs)⟩
        rwa [List.append_nil] at hs
      · obtain ⟨hmoved', hkept'⟩ := hsome' hsame
        refine ⟨fun s hs => ?_, hkept'⟩
        rcases List.mem_append.1 hs with hs | hs
        · -- what has moved before was scheduled for an earlier phase
          by_cases hfirst : g.reached = f.reached
          · rw [hnone hfirst] at hs
            exact absurd hs List.not_mem_nil
          · exact Nat.le_trans ((hsome hfirst).1 s hs) hgh.reached
        · exact hmoved' s hs

/-- **One call** advances the front end, whether or not a fault stops it. -/
theorem advanced_compile (f : Recording) (target : Phase) :
    f.Advanced (f.compile target).1 := by
  induction f using compile_induction target with
  | idle f hle =>
    rw [compile_of_le hle]
    exact .refl f
  | step f hlt ih =>
    have hreach := advanced_reach hlt
    rw [compile_of_lt hlt]
    split
    · exact hreach.withFaults _
    · exact hreach.trans ih

/-- The front end after some calls, whatever has come of each of them. -/
def compileEach (f : Recording) (calls : List Phase) : Recording :=
  calls.foldl (fun f target => (f.compile target).1) f

/-- **Any calls** advance the front end. -/
theorem advanced_compileEach (f : Recording) (calls : List Phase) :
    f.Advanced (f.compileEach calls) := by
  induction calls generalizing f with
  | nil => exact .refl f
  | cons target calls ih => exact (f.advanced_compile target).trans (ih _)

/-- **The granularity of driving does not matter.** Drain to some targets one after the other: this
comes to an end, in one way only, and the faults and the front end at the end are those of draining
to the latest of the targets at once. The faults are the first ones of the phases on the way, and at
the end the latest target has been reached. At any time on the way, whatever calls there have been,
a call for a phase that has been reached has no effect; any other call advances the front end, as
the calls before have done: the phase reached does not decrease, a message moves to the collector of
its unit at most once, and those that have moved are the ones scheduled for the phases so far. -/
theorem granularity_irrelevant (f : Recording) (targets : List Phase) :
    (∃ g, g.reached = f.reached.later (Phase.latest targets) ∧ ∀ raised' g',
      (DrainsAll targets f raised' g' ↔
        raised' = f.raisedFaults (Phase.latest targets) ∧ g' = g) ∧
      (Drains (Phase.latest targets) f raised' g' ↔
        raised' = f.raisedFaults (Phase.latest targets) ∧ g' = g)) ∧
    ∀ calls target,
      f.Advanced (f.compileEach calls) ∧
      (target ≤ (f.compileEach calls).reached →
        (f.compileEach calls).compile target = (f.compileEach calls, none)) ∧
      (f.compileEach calls).Advanced ((f.compileEach calls).compile target).1 := by
  obtain ⟨g, hlatest, hreached⟩ := f.drains_raisedFaults (Phase.latest targets)
  -- draining to each of the targets ends in the same way
  obtain ⟨raised, g', hall⟩ := f.exists_drainsAll targets
  obtain ⟨rfl, rfl⟩ := hlatest.unique hall.drains_latest
  refine ⟨⟨_, hreached, fun raised' g' => ⟨⟨fun h => ?_, ?_⟩, ⟨fun h => ?_, ?_⟩⟩⟩,
    fun calls target => ⟨f.advanced_compileEach calls, compile_of_le, advanced_compile _ target⟩⟩
  · exact hlatest.unique h.drains_latest
  · rintro ⟨rfl, rfl⟩
    exact hall
  · exact hlatest.unique h
  · rintro ⟨rfl, rfl⟩
    exact hlatest

end Recording

end HostBridge
