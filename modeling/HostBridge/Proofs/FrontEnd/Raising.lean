import HostBridge.Proofs.FrontEnd.Idle
import Mathlib.Data.List.Nodup

/-!
# The faults that a recording raises

A fault stops driving, and the front end may then be driven on. This file follows a front end that
is driven to a target again and again until no fault is raised any more, `Recording.Drains`. It
always comes to an end, and there is only one way in which it goes.

One would expect that every scheduled fault is raised in turn, in the order of the phases and for
one phase in the order of the schedule, `Recording.scheduledFaults`. But a phase raises the first
fault scheduled for it and is reached then, so driving on begins behind it: of several faults for
one phase only the first is raised, `Recording.second_fault_not_raised`. Nor is a fault raised that
is scheduled for the phase where the front end starts, since no step leads to that phase.

* `Recording.drains_raisedFaults` — what is raised is the first fault of each phase on the way;
* `Recording.raised_eq_scheduled_iff` — this is the whole schedule exactly if all faults are
  scheduled for phases that are still to come, and no two of them for the same one.
-/

namespace HostBridge

namespace Recording

variable {f g : Recording} {target phase : Phase} {fault : Source.CompileFault}
  {raised raised' : List Source.CompileFault}

/-! ### The schedule -/

/-- The faults scheduled for a phase, in the order of the schedule. -/
def faultsFor (r : Recording) (phase : Phase) : List Source.CompileFault :=
  (r.faults.filter fun s => s.phase = phase).map (·.fault)

/-- **All scheduled faults** in the order of their phases, and for one phase in the order of the
schedule. -/
def scheduledFaults (r : Recording) : List Source.CompileFault := Phase.all.flatMap r.faultsFor

/-- The first fault of each phase on the way to a target. -/
def raisedFaults (r : Recording) (target : Phase) : List Source.CompileFault :=
  (r.reached.stepsTo target).filterMap fun phase => (r.faultsFor phase).head?

theorem takeFault?_eq_none_iff {faults : List ScheduledFault} :
    takeFault? phase faults = none ↔ ∀ s ∈ faults, s.phase ≠ phase := by
  induction faults with
  | nil => simp [takeFault?]
  | cons s ss ih =>
    rw [takeFault?, List.forall_mem_cons]
    by_cases hs : s.phase = phase
    · simp [hs]
    · rw [if_neg hs, Option.map_eq_none_iff, ih]
      exact ⟨fun hall => ⟨hs, hall⟩, And.right⟩

/-- The fault that is taken is the first one of its phase, and the faults of the other phases
stay. -/
theorem filter_of_takeFault? {faults rest : List ScheduledFault}
    (h : takeFault? phase faults = some (fault, rest)) :
    ((faults.filter fun s => s.phase = phase).map (·.fault)).head? = some fault ∧
      ∀ phase', phase' ≠ phase →
        rest.filter (fun s => s.phase = phase') = faults.filter fun s => s.phase = phase' := by
  induction faults generalizing rest with
  | nil => exact absurd h nofun
  | cons s ss ih =>
    rw [takeFault?] at h
    by_cases hs : s.phase = phase
    · -- the first fault of all is the one
      rw [if_pos hs] at h
      obtain ⟨rfl, rfl⟩ := Prod.mk.inj (Option.some.inj h)
      refine ⟨by simp [hs], fun phase' hne => (List.filter_cons_of_neg ?_).symm⟩
      rw [decide_eq_true_eq, hs]
      exact Ne.symm hne
    · rw [if_neg hs] at h
      obtain ⟨⟨fault', rest'⟩, htake, heq⟩ := Option.map_eq_some_iff.1 h
      obtain ⟨rfl, rfl⟩ := Prod.mk.inj heq
      obtain ⟨hfirst, hothers⟩ := ih htake
      refine ⟨?_, fun phase' hne => ?_⟩
      · rw [List.filter_cons_of_neg (by simpa using hs)]
        exact hfirst
      · rw [List.filter_cons, List.filter_cons, hothers phase' hne]

/-! ### One call -/

/-- **The next phase.** Driving has nothing to do; or it reaches the next phase, where it raises the
first fault scheduled for it; or nothing is scheduled for that phase, and driving goes on as if it
had started there. -/
theorem compile_next (f : Recording) (target : Phase) :
    (f.reached.stepsTo target = [] ∧ f.compile target = (f, none)) ∨
      ∃ steps, f.reached.stepsTo target = f.reached.next :: steps ∧
        steps = f.reached.next.stepsTo target ∧
        ((∃ fault rest, takeFault? f.reached.next f.faults = some (fault, rest) ∧
            f.compile target = ({ f.reach f.reached.next with faults := rest }, some fault)) ∨
          takeFault? f.reached.next f.faults = none ∧
            f.compile target = (f.reach f.reached.next).compile target) := by
  rcases f.reached.stepsTo_cases target with hnil | ⟨-, hcons⟩
  · refine Or.inl ⟨hnil, ?_⟩
    rw [compile, hnil, advance]
  · refine Or.inr ⟨_, hcons, rfl, ?_⟩
    rw [compile, hcons, advance]
    have hfaults : (f.reach f.reached.next).faults = f.faults := rfl
    cases htake : takeFault? f.reached.next f.faults with
    | some taken =>
      obtain ⟨fault, rest⟩ := taken
      refine Or.inl ⟨fault, rest, rfl, ?_⟩
      rw [hfaults, htake]
    | none =>
      refine Or.inr ⟨rfl, ?_⟩
      rw [hfaults, htake]
      rfl

/-! ### Driving again and again -/

/-- **Driving to a target again and again**, until no fault is raised. The faults that are raised on
the way are listed, one for each call but the last. -/
inductive Drains (target : Phase) : Recording → List Source.CompileFault → Recording → Prop
  | quiet {f : Recording} (h : (f.compile target).2 = none) :
      Drains target f [] (f.compile target).1
  | raised {f g : Recording} {fault : Source.CompileFault} {faults : List Source.CompileFault}
      (h : (f.compile target).2 = some fault) (rest : Drains target (f.compile target).1 faults g) :
      Drains target f (fault :: faults) g

/-- Only the first call counts for how driving goes on. -/
theorem Drains.of_compile_eq {f' : Recording} (h : Drains target f raised g)
    (heq : f'.compile target = f.compile target) : Drains target f' raised g := by
  cases h with
  | quiet hquiet =>
    rw [← heq] at hquiet ⊢
    exact .quiet hquiet
  | raised hraised rest =>
    rw [← heq] at hraised rest
    exact .raised hraised rest

/-- There is only one way in which it goes. -/
theorem Drains.unique {g' : Recording} (h : Drains target f raised g)
    (h' : Drains target f raised' g') : raised' = raised ∧ g' = g := by
  induction h generalizing raised' with
  | quiet hquiet =>
    cases h' with
    | quiet => exact ⟨rfl, rfl⟩
    | raised hraised => exact absurd (hquiet.symm.trans hraised) nofun
  | raised hraised _ ih =>
    cases h' with
    | quiet hquiet => exact absurd (hquiet.symm.trans hraised) nofun
    | raised hraised' rest' =>
      obtain rfl := Option.some.inj (hraised.symm.trans hraised')
      obtain ⟨rfl, rfl⟩ := ih rest'
      exact ⟨rfl, rfl⟩

/-- A phase that raises a fault raises the first one scheduled for it. The faults that are left for
it are not on the way any more. -/
theorem raisedFaults_of_fault {rest : List ScheduledFault} {steps : List Phase}
    (hsteps : f.reached.stepsTo target = f.reached.next :: steps)
    (hnext : steps = f.reached.next.stepsTo target)
    (htake : takeFault? f.reached.next f.faults = some (fault, rest)) :
    f.raisedFaults target =
      fault ::
        ({ f.reach f.reached.next with faults := rest } : Recording).raisedFaults target := by
  obtain ⟨hfirst, hothers⟩ := filter_of_takeFault? htake
  have hlast : ∀ phase ∈ f.reached.next.stepsTo target, phase ≠ f.reached.next := by
    intro phase hphase heq
    rw [heq, Phase.mem_stepsTo] at hphase
    exact Nat.lt_irrefl _ hphase.1
  have hcons : f.raisedFaults target = fault ::
      (f.reached.next.stepsTo target).filterMap fun phase => (f.faultsFor phase).head? := by
    rw [raisedFaults, hsteps, hnext]
    exact List.filterMap_cons_some hfirst
  rw [hcons]
  refine congrArg (fault :: ·) (List.filterMap_congr fun phase hphase => ?_)
  show _ = ((rest.filter fun s => s.phase = phase).map (·.fault)).head?
  rw [hothers phase (hlast phase hphase), faultsFor]

/-- A phase for which nothing is scheduled raises nothing. -/
theorem raisedFaults_of_none {steps : List Phase}
    (hsteps : f.reached.stepsTo target = f.reached.next :: steps)
    (hnext : steps = f.reached.next.stepsTo target)
    (htake : takeFault? f.reached.next f.faults = none) :
    f.raisedFaults target = (f.reach f.reached.next).raisedFaults target := by
  have hnone : (f.faultsFor f.reached.next).head? = none := by
    rw [faultsFor, List.head?_map, Option.map_eq_none_iff, List.head?_eq_none_iff,
      List.filter_eq_nil_iff]
    intro s hs
    simpa using takeFault?_eq_none_iff.1 htake s hs
  rw [raisedFaults, hsteps, hnext]
  exact List.filterMap_cons_none hnone

/-- **What is raised** is the first fault of each phase on the way, in the order of the phases.
After that the front end has reached the target, unless it had got further before. -/
theorem drains_raisedFaults (f : Recording) (target : Phase) :
    ∃ g, Drains target f (f.raisedFaults target) g ∧ g.reached = f.reached.later target := by
  -- by induction on the phases to go, which at any time are the steps from the phase reached
  generalize hsteps : f.reached.stepsTo target = steps
  induction steps generalizing f with
  | nil =>
    have hreached := Phase.stepsTo_eq_nil_iff.1 hsteps
    have hquiet := Drains.quiet (congrArg Prod.snd (compile_of_reached hreached))
    rw [compile_of_reached hreached] at hquiet
    rw [raisedFaults, hsteps, List.filterMap_nil]
    exact ⟨f, hquiet, hreached.symm⟩
  | cons next steps ih =>
    rcases f.compile_next target with ⟨hnil, -⟩ | ⟨steps', hcons, hnext, hcompile⟩
    · exact absurd (hsteps.symm.trans hnil) (List.cons_ne_nil _ _)
    · obtain ⟨rfl, rfl⟩ := List.cons.inj (hcons.symm.trans hsteps)
      have hlater := Phase.later_next (hsteps ▸ List.cons_ne_nil _ _)
      rcases hcompile with ⟨fault, rest, htake, hcompile⟩ | ⟨htake, hcompile⟩
      · -- the phase raises a fault, and driving on goes to the phases behind it
        obtain ⟨g, hdrains, hreached⟩ :=
          ih { f.reach f.reached.next with faults := rest } hnext.symm
        rw [raisedFaults_of_fault hcons hnext htake]
        refine ⟨g, .raised (congrArg Prod.snd hcompile) ?_, hreached.trans hlater⟩
        rw [hcompile]
        exact hdrains
      · obtain ⟨g, hdrains, hreached⟩ := ih (f.reach f.reached.next) hnext.symm
        rw [raisedFaults_of_none hcons hnext htake]
        exact ⟨g, hdrains.of_compile_eq hcompile, hreached.trans hlater⟩

end Recording

/-! ### First elements of lists -/

section FirstElements

variable {α β : Type} (g : α → List β) (xs : List α)

/-- The first elements of some lists are no more than all of their elements. -/
theorem length_filterMap_head?_le :
    (xs.filterMap fun x => (g x).head?).length ≤ (xs.flatMap g).length := by
  induction xs with
  | nil => exact Nat.le_refl _
  | cons x xs ih =>
    rw [List.flatMap_cons, List.length_append]
    cases hx : g x with
    | nil =>
      rw [List.filterMap_cons_none (by rw [hx]; rfl), List.length_nil]
      omega
    | cons b bs =>
      rw [List.filterMap_cons_some (by rw [hx]; rfl), List.length_cons, List.length_cons]
      omega

/-- The first elements of some lists are all of their elements exactly if no list has a second
one. -/
theorem filterMap_head?_eq_flatMap_iff :
    (xs.filterMap fun x => (g x).head?) = xs.flatMap g ↔ ∀ x ∈ xs, (g x).length ≤ 1 := by
  induction xs with
  | nil => simp
  | cons x xs ih =>
    rw [List.forall_mem_cons, List.flatMap_cons, ← ih]
    cases hx : g x with
    | nil =>
      rw [List.filterMap_cons_none (by rw [hx]; rfl)]
      simp
    | cons b bs =>
      rw [List.filterMap_cons_some (by rw [hx]; rfl), List.cons_append, List.cons_inj_right]
      constructor
      · intro heq
        -- by their lengths nothing is left of the first list
        have hle := length_filterMap_head?_le g xs
        have hlength := congrArg List.length heq
        rw [List.length_append] at hlength
        obtain rfl := List.length_eq_zero_iff.1 (show bs.length = 0 by omega)
        exact ⟨Nat.le_refl 1, heq⟩
      · rintro ⟨hlength, heq⟩
        obtain rfl := List.length_eq_zero_iff.1 (Nat.le_zero.1 (Nat.succ_le_succ_iff.1 hlength))
        exact heq

end FirstElements

/-- The phases are those up to the one reached and those to come. -/
theorem Phase.all_eq_append_stepsTo (reached : Phase) :
    all = all.filter (· ≤ reached) ++ reached.stepsTo .finalization := by
  cases reached <;> decide

/-! ### When the whole schedule is raised -/

namespace Recording

/-- Nothing is scheduled for the phases up to the one reached exactly if all faults are scheduled
for later ones. -/
theorem faultsFor_reached_eq_nil_iff (r : Recording) :
    (Phase.all.filter (· ≤ r.reached)).flatMap r.faultsFor = [] ↔
      ∀ s ∈ r.faults, r.reached < s.phase := by
  rw [List.flatMap_eq_nil_iff]
  constructor
  · intro hnil s hs
    by_contra hle
    have hphase : s.phase ∈ Phase.all.filter (· ≤ r.reached) :=
      List.mem_filter.2 ⟨Phase.mem_all _, decide_eq_true (Nat.le_of_not_lt hle)⟩
    have hmem : s.fault ∈ r.faultsFor s.phase :=
      List.mem_map_of_mem (List.mem_filter.2 ⟨hs, decide_eq_true rfl⟩)
    rw [hnil _ hphase] at hmem
    exact List.not_mem_nil hmem
  · intro hlater phase hphase
    have hle : phase ≤ r.reached := of_decide_eq_true (List.mem_filter.1 hphase).2
    rw [faultsFor, List.map_eq_nil_iff, List.filter_eq_nil_iff]
    intro s hs heq
    have hlt := hlater s hs
    rw [of_decide_eq_true heq] at hlt
    exact absurd hlt (Nat.not_lt.2 hle)

/-- No two faults are scheduled for the same phase exactly if no phase has a second one. -/
theorem nodup_phases_iff (r : Recording) :
    (r.faults.map (·.phase)).Nodup ↔ ∀ phase, (r.faultsFor phase).length ≤ 1 := by
  rw [List.nodup_iff_count_le_one]
  refine forall_congr' fun phase => ?_
  rw [faultsFor, List.length_map, List.count_eq_countP, List.countP_map,
    List.countP_eq_length_filter]
  rfl

/-- The first faults of the phases to come are the whole schedule exactly if these are all faults
and the only ones of their phases. -/
theorem raisedFaults_eq_scheduledFaults_iff (r : Recording) :
    r.raisedFaults .finalization = r.scheduledFaults ↔
      (∀ s ∈ r.faults, r.reached < s.phase) ∧ (r.faults.map (·.phase)).Nodup := by
  -- the schedule of the phases up to the one reached, and that of the phases to come
  have hsplit : r.scheduledFaults = (Phase.all.filter (· ≤ r.reached)).flatMap r.faultsFor ++
      (r.reached.stepsTo .finalization).flatMap r.faultsFor := by
    rw [scheduledFaults, ← List.flatMap_append, ← Phase.all_eq_append_stepsTo]
  rw [hsplit, ← faultsFor_reached_eq_nil_iff, nodup_phases_iff]
  constructor
  · intro heq
    -- by their lengths nothing is scheduled for the phases up to the one reached
    have hle := length_filterMap_head?_le r.faultsFor (r.reached.stepsTo .finalization)
    have hlength := congrArg List.length heq
    rw [List.length_append, raisedFaults] at hlength
    have hnil := List.length_eq_zero_iff.1
      (show ((Phase.all.filter (· ≤ r.reached)).flatMap r.faultsFor).length = 0 by omega)
    rw [hnil, List.nil_append, raisedFaults, filterMap_head?_eq_flatMap_iff] at heq
    refine ⟨hnil, fun phase => ?_⟩
    rcases List.mem_append.1 (r.reached.all_eq_append_stepsTo ▸ phase.mem_all) with h | h
    · rw [List.flatMap_eq_nil_iff.1 hnil phase h]
      exact Nat.zero_le 1
    · exact heq phase h
  · rintro ⟨hnil, hone⟩
    rw [hnil, List.nil_append, raisedFaults, filterMap_head?_eq_flatMap_iff]
    exact fun phase _ => hone phase

/-- **Each scheduled fault is raised once**, in the order of the phases and of the schedule, exactly
if all of them are scheduled for phases that are still to come, and no two for the same one. Drive a
front end to the last phase again and again until no fault is raised: this comes to an end, in one
way only, and what is raised is the first fault of each phase. -/
theorem raised_eq_scheduled_iff (r : Recording) :
    ∃ raised g, r.Drains .finalization raised g ∧
      (∀ raised' g', r.Drains .finalization raised' g' → raised' = raised ∧ g' = g) ∧
      raised = (r.reached.stepsTo .finalization).filterMap (fun phase =>
        (r.faultsFor phase).head?) ∧
      (raised = r.scheduledFaults ↔
        (∀ s ∈ r.faults, r.reached < s.phase) ∧ (r.faults.map (·.phase)).Nodup) := by
  obtain ⟨g, hdrains, -⟩ := r.drains_raisedFaults .finalization
  exact ⟨_, g, hdrains, fun raised' g' h' => hdrains.unique h', rfl,
    r.raisedFaults_eq_scheduledFaults_iff⟩

/-- A recording with two faults for one phase. -/
def twoFaults : Recording where
  faults := [⟨.conversion, .bug "first"⟩, ⟨.conversion, .bug "second"⟩]

/-- **Of two faults for one phase the second is never raised.** -/
theorem second_fault_not_raised :
    twoFaults.scheduledFaults = [.bug "first", .bug "second"] ∧
      ∀ raised g, twoFaults.Drains .finalization raised g → raised = [.bug "first"] := by
  refine ⟨by decide +kernel, fun raised g hdrains => ?_⟩
  obtain ⟨g', hdrains', -⟩ := twoFaults.drains_raisedFaults .finalization
  rw [(hdrains'.unique hdrains).1]
  decide +kernel

end Recording

end HostBridge
