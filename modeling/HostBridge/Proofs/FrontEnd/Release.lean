import HostBridge.FrontEnd.Recording

/-!
# What a recording has released

Driving a recording to a phase releases the messages of all modules phase by phase. This file
describes the messages that a module has been given so far without following the run: they are those
scheduled for the phases that have been reached, in the order of the phases,
`RecordedUnit.released`. Messages scheduled for the initialization come with the first phase after
it, since a recording starts out initialized.

`Recording.Plays r f` says that `f` is what is left of the recording `r` after some driving. Its
step is `Plays.reach`, for one phase, and its run `Plays.compile`, for driving to a target, whether
or not a fault stops it early. Both say the same thing about the collectors: each of them has the
messages at its end that the module has been given meanwhile, and nothing else has changed.

Taking messages out of a collector, `Recording.setCollector`, has no influence on the play.
-/

namespace HostBridge

/-! ### Steps of one phase -/

namespace Phase

/-- The phase after this one. -/
def next : Phase → Phase
  | initialization => parsing
  | parsing => conversion
  | conversion => semanticAnalysis
  | semanticAnalysis => canonicalization
  | canonicalization => instructionSelection
  | instructionSelection => classGeneration
  | classGeneration => output
  | output => finalization
  | finalization => finalization

/-- The phase that releases what is scheduled for this one. -/
def release : Phase → Phase
  | initialization => parsing
  | phase => phase

/-- Going through phases takes one step after the other. -/
theorem stepsTo_cases (current target : Phase) :
    stepsTo current target = [] ∨
      current ≠ finalization ∧
        stepsTo current target = current.next :: stepsTo current.next target := by
  cases current <;> cases target <;> decide

theorem stepsTo_next {current : Phase} (h : current ≠ finalization) :
    stepsTo initialization current.next = stepsTo initialization current ++ [current.next] := by
  cases current <;> first | decide | exact absurd rfl h

/-- What a phase releases is what is scheduled for it or before, and has not been released. -/
theorem release_eq_next_iff {current : Phase} (h : current ≠ finalization) (phase : Phase) :
    phase.release = current.next ↔ ¬ phase.release ≤ current ∧ phase ≤ current.next := by
  cases current <;> cases phase <;> first | decide | exact absurd rfl h

theorem release_le_next_iff (current phase : Phase) :
    phase.release ≤ current.next ↔ phase.release ≤ current ∨ phase ≤ current.next := by
  cases current <;> cases phase <;> decide

end Phase

/-! ### The released messages -/

namespace RecordedUnit

/-- The messages that a phase releases. -/
def releasedBy (u : RecordedUnit) (phase : Phase) : List Source.Message :=
  (u.pending.filter fun s => s.phase.release = phase).map (·.message)

/-- **The messages released so far**, if this phase has been reached: in the order of the phases,
and for one phase as they have been scheduled. -/
def released (u : RecordedUnit) (reached : Phase) : List Source.Message :=
  (Phase.initialization.stepsTo reached).flatMap u.releasedBy

theorem released_initialization (u : RecordedUnit) : u.released .initialization = [] := rfl

theorem released_next (u : RecordedUnit) {reached : Phase} (h : reached ≠ .finalization) :
    u.released reached.next = u.released reached ++ u.releasedBy reached.next := by
  rw [released, Phase.stepsTo_next h, List.flatMap_append, List.flatMap_singleton]
  rfl

/-- What is left of a unit when a phase has been reached, with these messages in its collector. -/
def rest (u : RecordedUnit) (reached : Phase) (collector : List Source.Message) : RecordedUnit :=
  { u with
    pending := u.pending.filter fun s => ¬ s.phase.release ≤ reached
    collector := collector }

theorem rest_initialization (u : RecordedUnit) : u.rest .initialization u.collector = u := by
  -- no phase releases before the one that follows the initialization
  have hkeep : ∀ s ∈ u.pending, decide (¬ s.phase.release ≤ .initialization) = true := by
    intro s _
    cases s.phase <;> decide
  rw [rest, List.filter_eq_self.2 hkeep]

/-- The next phase takes its messages out of what is left. -/
theorem release_rest (u : RecordedUnit) {reached : Phase} (h : reached ≠ .finalization)
    (collector : List Source.Message) :
    (u.rest reached collector).release reached.next =
      u.rest reached.next (collector ++ u.releasedBy reached.next) := by
  -- what is kept has not been released by the phases so far, nor by the next one
  have hkept : (u.pending.filter fun s => ¬ s.phase.release ≤ reached).filter
      (fun s => ¬ s.phase ≤ reached.next) =
      u.pending.filter fun s => ¬ s.phase.release ≤ reached.next := by
    rw [List.filter_filter]
    refine List.filter_congr fun s _ => ?_
    have := Phase.release_le_next_iff reached s.phase
    grind
  -- what is taken is scheduled for the next phase, or else it would have been taken before
  have htaken : (u.pending.filter fun s => ¬ s.phase.release ≤ reached).filter
      (fun s => s.phase ≤ reached.next) =
        u.pending.filter fun s => s.phase.release = reached.next := by
    rw [List.filter_filter]
    refine List.filter_congr fun s _ => ?_
    have := Phase.release_eq_next_iff h s.phase
    grind
  rw [release, rest, rest, releasedBy, hkept, htaken]

end RecordedUnit

/-! ### Looking units up -/

namespace Recording

variable {r f : Recording} {id id' : Source.ModuleId}

theorem unit?_reach (f : Recording) (phase : Phase) (id : Source.ModuleId) :
    (f.reach phase).unit? id = (f.unit? id).map (·.release phase) := by
  rw [unit?, reach, List.find?_map]
  rfl

/-- Changing the unit of a module changes that one and no other. -/
theorem unit?_modifyUnit (f : Recording) (id id' : Source.ModuleId)
    {g : RecordedUnit → RecordedUnit}
    (hg : ∀ u, (g u).module = u.module) :
    (f.modifyUnit id g).unit? id' = if id = id' then (f.unit? id).map g else f.unit? id' := by
  rw [unit?, unit?, unit?, modifyUnit]
  dsimp only
  induction f.units with
  | nil => simp
  | cons u us ih =>
    by_cases hu : u.module.id = id
    · -- the unit to change comes first
      subst hu
      by_cases hid : u.module.id = id' <;> simp [List.findIdx_cons, hg, hid]
    · -- the unit to change is among the others
      have hstep : (u :: us).modify ((u :: us).findIdx fun u => u.module.id = id) g =
          u :: us.modify (us.findIdx fun u => u.module.id = id) g := by
        simp [List.findIdx_cons, hu]
      rw [hstep, List.find?_cons, List.find?_cons, List.find?_cons]
      by_cases hid : u.module.id = id'
      · subst hid
        simp [Ne.symm hu]
      · simp only [hu, hid, decide_false]
        exact ih

theorem unit?_setCollector (f : Recording) (id id' : Source.ModuleId)
    (messages : List Source.Message) :
    (f.setCollector id messages).unit? id' =
      if id = id' then (f.unit? id).map fun u => { u with collector := messages }
      else f.unit? id' :=
  unit?_modifyUnit f id id' fun _ => rfl

theorem collector?_setCollector_self {messages : List Source.Message}
    (h : (f.collector? id).isSome) :
    (f.setCollector id messages).collector? id = some messages := by
  rw [collector?, unit?_setCollector, if_pos rfl]
  rw [collector?, Option.isSome_map] at h
  obtain ⟨u, hu⟩ := Option.isSome_iff_exists.1 h
  rw [hu]
  rfl

theorem collector?_setCollector_of_ne (messages : List Source.Message) (h : id ≠ id') :
    (f.setCollector id messages).collector? id' = f.collector? id' := by
  rw [collector?, unit?_setCollector, if_neg h, collector?]

theorem module?_setCollector (f : Recording) (id id' : Source.ModuleId)
    (messages : List Source.Message) :
    (f.setCollector id messages).module? id' = f.module? id' := by
  rw [module?, module?, unit?_setCollector]
  split
  · next hid =>
    subst hid
    rw [Option.map_map]
    rfl
  · rfl

/-- Driving changes no module. -/
theorem module?_compile (f : Recording) (target : Phase) (id : Source.ModuleId) :
    (f.compile target).1.module? id = f.module? id := by
  have hreach : ∀ (f : Recording) phase, (f.reach phase).module? id = f.module? id := by
    intro f phase
    rw [module?, unit?_reach, Option.map_map]
    rfl
  rw [compile]
  generalize f.reached.stepsTo target = phases
  induction phases generalizing f with
  | nil => rfl
  | cons phase phases ih =>
    rw [advance]
    split
    · exact hreach f phase
    · rw [ih, hreach]

/-- A fault that is raised is a scheduled one, and so are the others. -/
theorem takeFault?_subset {phase : Phase} {faults rest : List ScheduledFault}
    {fault : Source.CompileFault}
    (h : takeFault? phase faults = some (fault, rest)) :
    (∃ s ∈ faults, s.fault = fault) ∧ rest ⊆ faults := by
  induction faults generalizing rest with
  | nil => simp [takeFault?] at h
  | cons s ss ih =>
    rw [takeFault?] at h
    by_cases hs : s.phase = phase
    · rw [if_pos hs] at h
      cases h
      exact ⟨⟨s, List.mem_cons_self, rfl⟩, List.subset_cons_self s ss⟩
    · rw [if_neg hs] at h
      obtain ⟨⟨fault', rest'⟩, htake, heq⟩ := Option.map_eq_some_iff.1 h
      cases heq
      obtain ⟨⟨t, ht, hfault⟩, hsub⟩ := ih htake
      exact ⟨⟨t, List.mem_cons_of_mem s ht, hfault⟩, List.cons_subset_cons s hsub⟩

/-! ### Playing a recording -/

/-- A recording that has not been driven has released nothing. -/
structure IsFresh (r : Recording) : Prop where
  reached : r.reached = .initialization
  collectors : ∀ u ∈ r.units, u.collector = []

/-- **Playing a recording.** What is left of `r` after some driving and after taking some messages
out of the collectors: the units as they were, with the messages that have not been released, and
some of the faults. -/
structure Plays (r f : Recording) : Prop where
  units : ∀ id, ∃ collector, f.unit? id = (r.unit? id).map (·.rest f.reached collector)
  faults : f.faults ⊆ r.faults

/-- Some messages have been released: each collector has them at its end, in the order of their
release. -/
def Releases (r f f' : Recording) : Prop :=
  ∀ id, ∃ new, f'.collector? id = (f.collector? id).map (· ++ new) ∧
    ∀ v, r.unit? id = some v → v.released f'.reached = v.released f.reached ++ new

theorem Releases.refl (r f : Recording) : Releases r f f := by
  intro id
  refine ⟨[], ?_, fun v _ => (List.append_nil _).symm⟩
  simp

theorem Releases.trans {f' f'' : Recording} (h : Releases r f f') (h' : Releases r f' f'') :
    Releases r f f'' := by
  intro id
  obtain ⟨new, hcollector, hreleased⟩ := h id
  obtain ⟨new', hcollector', hreleased'⟩ := h' id
  refine ⟨new ++ new', ?_, fun v hv => ?_⟩
  · rw [hcollector', hcollector, Option.map_map]
    congr 1
    funext messages
    exact List.append_assoc ..
  · rw [hreleased' v hv, hreleased v hv, List.append_assoc]

namespace Plays

theorem refl (h : r.IsFresh) : r.Plays r where
  units id := by
    rw [h.reached]
    cases hu : r.unit? id with
    | none => exact ⟨[], rfl⟩
    | some u => exact ⟨u.collector, congrArg some u.rest_initialization.symm⟩
  faults := List.Subset.refl _

theorem setCollector (h : r.Plays f) (id : Source.ModuleId) (messages : List Source.Message) :
    r.Plays (f.setCollector id messages) where
  units id' := by
    obtain ⟨collector, hunit⟩ := h.units id'
    rw [unit?_setCollector]
    by_cases hid : id = id'
    · subst hid
      refine ⟨messages, ?_⟩
      rw [if_pos rfl, hunit, Option.map_map]
      rfl
    · refine ⟨collector, ?_⟩
      rw [if_neg hid, hunit]
      rfl
  faults := h.faults

/-- **One phase.** Reaching the next phase releases what is scheduled for it. -/
theorem reach (h : r.Plays f) (hlast : f.reached ≠ .finalization) :
    r.Plays (f.reach f.reached.next) ∧ Releases r f (f.reach f.reached.next) := by
  have hunit : ∀ id collector, f.unit? id = (r.unit? id).map (·.rest f.reached collector) →
      ∀ v, r.unit? id = some v → (f.reach f.reached.next).unit? id =
        some (v.rest f.reached.next (collector ++ v.releasedBy f.reached.next)) := by
    intro id collector hunit v hv
    rw [unit?_reach, hunit, hv, Option.map_some, Option.map_some, v.release_rest hlast]
  constructor
  · -- the units have what the next phase leaves
    refine ⟨fun id => ?_, h.faults⟩
    obtain ⟨collector, hid⟩ := h.units id
    cases hv : r.unit? id with
    | none => exact ⟨[], by rw [unit?_reach, hid, hv]; rfl⟩
    | some v => exact ⟨_, hunit id collector hid v hv⟩
  · -- and the collectors have what it releases
    intro id
    obtain ⟨collector, hid⟩ := h.units id
    cases hv : r.unit? id with
    | none =>
      refine ⟨[], ?_, fun v hv' => absurd hv' (by simp)⟩
      rw [collector?, collector?, unit?_reach, hid, hv]
      rfl
    | some v =>
      refine ⟨v.releasedBy f.reached.next, ?_, fun v' hv' => ?_⟩
      · rw [collector?, collector?, hunit id collector hid v hv, hid, hv]
        rfl
      · obtain rfl := Option.some.inj hv'
        exact v.released_next hlast

/-- **Driving to a phase.** Whether or not a fault stops it, the messages of the phases that have
been reached are released; a fault that stops it is a scheduled one. -/
theorem compile (h : r.Plays f) (target : Phase) :
    r.Plays (f.compile target).1 ∧ Releases r f (f.compile target).1 ∧
      ∀ fault, (f.compile target).2 = some fault → ∃ s ∈ r.faults, s.fault = fault := by
  -- by induction on the phases to go, which at any time are the steps from the phase reached
  have run : ∀ phases f, r.Plays f → f.reached.stepsTo target = phases →
      r.Plays (advance phases f).1 ∧ Releases r f (advance phases f).1 ∧
        ∀ fault, (advance phases f).2 = some fault → ∃ s ∈ r.faults, s.fault = fault := by
    intro phases
    induction phases with
    | nil =>
      exact fun f h _ =>
        ⟨h, Releases.refl r f, fun fault hfault => absurd hfault (by simp [advance])⟩
    | cons phase phases ih =>
      intro f h hsteps
      rcases f.reached.stepsTo_cases target with hnil | ⟨hlast, hcons⟩
      · exact absurd (hnil.symm.trans hsteps) (by simp)
      · obtain ⟨rfl, rfl⟩ := List.cons.inj (hcons.symm.trans hsteps)
        obtain ⟨hplays, hreleases⟩ := h.reach hlast
        rw [advance]
        split
        · next fault faults htake =>
          -- the fault is raised after its phase has released its messages
          obtain ⟨hfault, hrest⟩ := takeFault?_subset htake
          refine ⟨⟨hplays.units, List.Subset.trans hrest hplays.faults⟩, hreleases,
            fun fault' hfault' => ?_⟩
          obtain rfl := Option.some.inj hfault'
          obtain ⟨s, hs, rfl⟩ := hfault
          exact ⟨s, hplays.faults hs, rfl⟩
        · obtain ⟨hplays', hreleases', hfault⟩ := ih _ hplays rfl
          exact ⟨hplays', hreleases.trans hreleases', hfault⟩
  exact run _ f h rfl

end Plays

end Recording

end HostBridge
