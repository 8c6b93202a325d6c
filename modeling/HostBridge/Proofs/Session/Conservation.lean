import HostBridge.Proofs.Problem.Conservation
import HostBridge.Proofs.Session.Run

/-!
# No diagnostic is lost

Several units share one front end. Driving it on behalf of one unit releases messages for the
modules of all units; each unit then takes messages out of the collector of its own module, as far
as its reporter accepts their diagnostics; a fault may leave them where they are. This file shows
that whatever the order of the callbacks and whatever the reporters answer, each message that has
been released is accounted for exactly once: `Build.diagnostics_conserved`.

The invariant for one unit is `SourceUnit.Accounted`: what its reporter has accepted, followed by
what waits in the collector of its module, is what has been released for its module. There are three
ways to keep it:

* a release puts the same messages at the end of both sides, `Accounted.releases`;
* recording moves diagnostics from the collector to the reporter and keeps their order,
  `Accounted.record`;
* what happens to the collector of another module does not matter, `Accounted.setCollector`.

Units are opened one after the other, and a module may have released messages long before its unit
is opened. Therefore `Build.Conserves` keeps the account of the modules without a unit as well:
whoever opens one finds all that has been released.
-/

namespace HostBridge

namespace SourceUnit

variable {r f f' : Recording} {u u' : SourceUnit}

/-- **The account of a unit.** The accepted diagnostics, then those of the messages that wait for
the unit, are those of the messages that have been released for its module. No message without a
diagnostic is missing. -/
def Accounted (r f : Recording) (u : SourceUnit) : Prop :=
  ∃ v messages, r.unit? u.module = some v ∧ f.collector? u.module = some messages ∧ ∀ phase,
    u.reporter.diagnostics.map (Diagnostic.atPhase phase) ++
      messages.filterMap (u.site phase).diagnostic? =
      (v.released f.reached).filterMap (u.site phase).diagnostic? ∧
    (u.site phase).untranslatable messages = (u.site phase).untranslatable (v.released f.reached)

/-- The account of a unit is about its module, its file and its accepted diagnostics. -/
theorem Accounted.congr (h : Accounted r f u) (hmodule : u'.module = u.module)
    (hfile : u'.file = u.file)
    (hdiagnostics : u'.reporter.diagnostics = u.reporter.diagnostics) : Accounted r f u' := by
  rw [Accounted, hmodule, hdiagnostics]
  have hsite : u'.site = u.site := by
    funext phase
    rw [site, site, hmodule, hfile]
  rw [hsite]
  exact h

/-- A release goes to both sides of the account. -/
theorem Accounted.releases (h : Accounted r f u) (hf : Recording.Releases r f f') :
    Accounted r f' u := by
  obtain ⟨v, messages, hv, hmessages, haccount⟩ := h
  obtain ⟨new, hcollector, hreleased⟩ := hf u.module
  rw [hmessages, Option.map_some] at hcollector
  refine ⟨v, messages ++ new, hv, hcollector, fun phase => ?_⟩
  obtain ⟨hdiagnostics, huntranslatable⟩ := haccount phase
  rw [hreleased v hv, List.filterMap_append, List.filterMap_append, ← hdiagnostics,
    List.append_assoc,
    Site.untranslatable_append, Site.untranslatable_append, huntranslatable]
  exact ⟨rfl, rfl⟩

/-- Recording moves diagnostics from one place to the other. -/
theorem Accounted.record (h : Accounted r f u) (phase : Phase) {messages : List Source.Message}
    (hmessages : f.collector? u.module = some messages) :
    Accounted r (f.setCollector u.module ((u.site phase).record messages u.reporter).remaining)
      { u with reporter := ((u.site phase).record messages u.reporter).reporter } := by
  obtain ⟨v, messages', hv, hmessages', haccount⟩ := h
  obtain rfl := Option.some.inj (hmessages.symm.trans hmessages')
  refine ⟨v, _, hv, Recording.collector?_setCollector_self (Option.isSome_of_eq_some hmessages),
    fun phase' => ?_⟩
  obtain ⟨hdiagnostics, huntranslatable⟩ := haccount phase'
  -- the diagnostics have been recorded for one phase, the account is for another one
  have hrecord := congrArg (List.map (Diagnostic.atPhase phase'))
    ((u.site phase).diagnostics_record messages u.reporter)
  rw [List.map_append, List.map_append, Site.filterMap_diagnostic?_atPhase,
    Site.filterMap_diagnostic?_atPhase] at hrecord
  have hremaining := (u.site phase).untranslatable_record messages u.reporter
  rw [← Site.untranslatable_atPhase _ phase',
    ← Site.untranslatable_atPhase _ phase' messages] at hremaining
  exact ⟨hrecord.trans hdiagnostics, hremaining.trans huntranslatable⟩

/-- The collector of another module does not count. -/
theorem Accounted.setCollector (h : Accounted r f u) {id : Source.ModuleId} (hid : id ≠ u.module)
    (messages : List Source.Message) : Accounted r (f.setCollector id messages) u := by
  obtain ⟨v, messages', hv, hmessages', haccount⟩ := h
  refine ⟨v, messages', hv, ?_, haccount⟩
  rw [Recording.collector?_setCollector_of_ne messages hid, hmessages']

/-- Where no fault carries problems of its own, driving keeps the account of the unit that drives
and those of all units of other modules. -/
theorem Driven.accounted {s : Session} {phase : Phase} {step : Step Outcome}
    (h : Driven u s phase step)
    (hplays : r.Plays s.frontEnd)
    (hfaults : ∀ fault ∈ r.faults, ∀ ms, fault.fault ≠ .multipleErrors ms) :
    (Accounted r s.frontEnd u → Accounted r step.session.frontEnd step.unit) ∧
      ∀ w : SourceUnit, w.module ≠ u.module → Accounted r s.frontEnd w →
        Accounted r step.session.frontEnd w := by
  obtain ⟨-, hreleases, hfault⟩ := hplays.compile phase
  cases h with
  | collected messages _ hmessages =>
    exact ⟨fun hu => (hu.releases hreleases).record phase hmessages,
      fun w hw haccount => (haccount.releases hreleases).setCollector (Ne.symm hw) _⟩
  | failed messages hraised =>
    -- such a fault is not among the scheduled ones
    obtain ⟨scheduled, hmem, heq⟩ := hfault _ hraised
    exact absurd heq (hfaults scheduled hmem messages)
  | quiet | cancelled | broken =>
    exact ⟨fun hu => hu.releases hreleases, fun w _ haccount => haccount.releases hreleases⟩

end SourceUnit

namespace Build

open SourceUnit (Accounted)

variable {r : Recording} {o : Options} {b b' : Build}

/-- **The invariant of a run.** The account is right for every open unit, and for every unit that
may still be opened for another module. -/
structure Conserves (r : Recording) (b : Build) : Prop where
  opened : ∀ u ∈ b.units, Accounted r b.session.frontEnd u
  unopened : ∀ u : SourceUnit, (∀ w ∈ b.units, w.module ≠ u.module) → (r.unit? u.module).isSome →
    u.reporter.transcript = [] → Accounted r b.session.frontEnd u

theorem conserves_fresh (hr : r.IsFresh) : Conserves r ⟨{ frontEnd := r, options := o }, []⟩ where
  opened u hu := absurd hu List.not_mem_nil
  unopened u _ hmodule hnew := by
    obtain ⟨v, hv⟩ := Option.isSome_iff_exists.1 hmodule
    have hcollector : r.collector? u.module = some [] := by
      rw [Recording.collector?, hv, Option.map_some, hr.collectors v (List.mem_of_find?_eq_some hv)]
    have hdiagnostics : u.reporter.diagnostics = [] := by
      rw [Reporter.diagnostics, Reporter.accepted, hnew]
      rfl
    refine ⟨v, [], hv, hcollector, fun phase => ?_⟩
    dsimp only
    rw [hr.reached, v.released_initialization, hdiagnostics]
    exact ⟨rfl, rfl⟩

/-- Opening a unit for a module that has none. -/
theorem Conserves.openUnit (h : Conserves r b) {id : Source.ModuleId} {path text : String}
    {reporter : Reporter} (hnew : reporter.transcript = [])
    (hmodule : b.session.frontEnd.module? id = r.module? id) (hid : ∀ w ∈ b.units, w.module ≠ id)
    (hopen : b.openUnit id path text reporter = .ok b') :
    Conserves r b' := by
  obtain ⟨hknown, files, file, rfl⟩ := openUnit_cases hopen
  rw [hmodule, Recording.module?, Option.isSome_map] at hknown
  constructor
  · intro u hu
    rcases List.mem_append.1 hu with hu | hu
    · exact h.opened u hu
    · rw [List.mem_singleton.1 hu]
      exact h.unopened _ hid hknown hnew
  · intro u hu
    exact h.unopened u fun w hw => hu w (List.mem_append_left _ hw)

/-- Calling a unit back changes that unit and keeps the account of those of other modules. -/
theorem Conserves.set (h : Conserves r b) (hnodup : (b.units.map (·.module)).Nodup) {i : Nat}
    {u u' : SourceUnit}
    {s' : Session} (hu : b.units[i]? = some u) (hmodule : u'.module = u.module)
    (hself : Accounted r b.session.frontEnd u → Accounted r s'.frontEnd u')
    (hother : ∀ w : SourceUnit, w.module ≠ u.module → Accounted r b.session.frontEnd w →
      Accounted r s'.frontEnd w) :
    Conserves r ⟨s', b.units.set i u'⟩ := by
  have hmem := List.mem_of_getElem? hu
  have hlt := (List.getElem?_eq_some_iff.1 hu).1
  constructor
  · -- the units that are open: the one that was called, and those of other modules
    intro w hw
    obtain ⟨j, hj⟩ := List.mem_iff_getElem?.1 hw
    by_cases hij : i = j
    · subst hij
      rw [List.getElem?_set_self hlt] at hj
      exact Option.some.inj hj ▸ hself (h.opened u hmem)
    · rw [List.getElem?_set_ne hij] at hj
      refine hother w ?_ (h.opened w (List.mem_of_getElem? hj))
      -- two units of the same module would be the same one
      intro heq
      have hmapped : (b.units.map (·.module))[i]? = (b.units.map (·.module))[j]? := by
        rw [List.getElem?_map, List.getElem?_map, hu, hj, Option.map_some, Option.map_some, heq]
      exact hij ((List.getElem?_inj (by rwa [List.length_map]) hnodup).1 hmapped)
  · -- the units that may still be opened, none of which is for the module of the called one
    intro w hw hknown hnew
    have hset : u' ∈ b.units.set i u' := List.mem_set hlt u'
    refine hother w ?_ (h.unopened w (fun x hx => ?_) hknown hnew)
    · exact fun heq => hw u' hset (hmodule.trans heq.symm)
    · intro heq
      obtain ⟨j, hj⟩ := List.mem_iff_getElem?.1 hx
      by_cases hij : i = j
      · subst hij
        obtain rfl := Option.some.inj (hu.symm.trans hj)
        exact hw u' hset (hmodule.trans heq)
      · rw [← List.getElem?_set_ne hij (a := u')] at hj
        exact hw x (List.mem_of_getElem? hj) heq

/-- A callback keeps the accounts. -/
theorem Conserves.call (h : Conserves r b) (hplays : r.Plays b.session.frontEnd)
    (hfaults : ∀ fault ∈ r.faults, ∀ ms, fault.fault ≠ .multipleErrors ms)
    (hnodup : (b.units.map (·.module)).Nodup) {i : Nat} {callback : Callback}
    {answer : Option Outcome}
    (hcall : b.call i callback = some (b', answer)) : Conserves r b' := by
  obtain ⟨u, hu, ⟨stage, rfl⟩ | rfl⟩ := call_cases hcall
  · rcases u.run_cases b.session stage with
      ⟨outcome, -, hrun⟩ | ⟨-, hsession, hdiagnostics, hmodule, hfile⟩
    · -- the stage has been completed before
      rw [hrun]
      exact h.set hnodup hu rfl id fun w _ hw => hw
    · have hdriven := u.driven_processTo b.session stage.target
      obtain ⟨hself, hother⟩ := hdriven.accounted hplays hfaults
      refine h.set hnodup hu hmodule (fun haccount => ?_) fun w hw haccount => ?_
      · rw [hsession]
        -- what the stage does after driving does not count
        refine (hself haccount).congr ?_ ?_ hdiagnostics
        · rw [hmodule, hdriven.frame.1]
        · rw [hfile, hdriven.frame.1]
      · rw [hsession]
        exact hother w hw haccount
  · exact h.set hnodup hu rfl (fun haccount => haccount.congr rfl rfl rfl) fun w _ hw => hw

/-- **A run of callbacks.** If no two units are open for the same module, the accounts are right. -/
theorem Reachable.conserves (hr : r.IsFresh)
    (hfaults : ∀ fault ∈ r.faults, ∀ ms, fault.fault ≠ .multipleErrors ms) (h : Reachable r o b)
    (hnodup : (b.units.map (·.module)).Nodup) : Conserves r b := by
  induction h with
  | fresh => exact conserves_fresh hr
  | opened hb hnew hopen ih =>
    -- the module of the new unit is not that of another one
    obtain ⟨-, files, file, rfl⟩ := openUnit_cases hopen
    rw [List.map_append, List.map_singleton, List.nodup_append] at hnodup
    refine (ih hnodup.1).openUnit hnew (hb.module? _) (fun w hw => ?_) hopen
    exact hnodup.2.2 w.module (List.mem_map_of_mem hw) _ List.mem_cons_self
  | called hb hcall ih =>
    rw [modules_call hcall] at hnodup
    exact (ih hnodup).call (hb.plays hr) hfaults hnodup hcall

/-- **No diagnostic is lost, duplicated or reordered.** Take any run of a build in which no two
units are open for the same module and no fault carries problems of its own. At any time, the
diagnostics that the reporter of a unit has accepted, followed by those of the messages in the
collector of its module, are those of all messages that have been released for the module, in the
order of their release. The messages without a diagnostic are all still in the collector.
Diagnostics are compared up to the phase for which they have been recorded. -/
theorem diagnostics_conserved (hr : r.IsFresh)
    (hfaults : ∀ fault ∈ r.faults, ∀ ms, fault.fault ≠ .multipleErrors ms) (h : Reachable r o b)
    (hnodup : (b.units.map (·.module)).Nodup) {u : SourceUnit} (hu : u ∈ b.units) :
    ∃ v messages, r.unit? u.module = some v ∧
      b.session.frontEnd.collector? u.module = some messages ∧ ∀ phase,
        u.reporter.diagnostics.map (Diagnostic.atPhase phase) ++
            messages.filterMap (u.site phase).diagnostic? =
          (v.released b.session.frontEnd.reached).filterMap (u.site phase).diagnostic? ∧
        (u.site phase).untranslatable messages =
          (u.site phase).untranslatable (v.released b.session.frontEnd.reached) :=
  (h.conserves hr hfaults hnodup).opened u hu

/-- A recording of two files. The parser fault of the first one is in the second one, and
compilation is told to stop on the way. -/
def twoFiles : Recording where
  units := [
    { path := "A.groovy", module := .empty ⟨0⟩
      pending := [⟨.conversion, .simple "late"⟩, ⟨.conversion, .parser "elsewhere" ⟨1⟩ 0 0⟩,
        ⟨.initialization, .simple "early"⟩] },
    { path := "B.groovy", module := .empty ⟨1⟩, pending := [⟨.parsing, .simple "other"⟩] }]
  faults := [⟨.conversion, .aborted⟩]

/-- Resolving the second file releases the messages of the first one, whose reporter then refuses
one of them. -/
theorem diagnostics_conserved_twoFiles :
    ∃ b u v, Reachable twoFiles {} b ∧ u ∈ b.units ∧ twoFiles.unit? u.module = some v ∧
      b.session.frontEnd.collector? u.module =
        some [.simple "late", .parser "elsewhere" ⟨1⟩ 0 0] ∧
      u.reporter.diagnostics.map (Diagnostic.atPhase .conversion) ++
          [Source.Message.simple "late", .parser "elsewhere" ⟨1⟩ 0 0].filterMap
            (u.site .conversion).diagnostic? =
        (v.released b.session.frontEnd.reached).filterMap (u.site .conversion).diagnostic? := by
  have hfirst : Reachable twoFiles {} _ :=
    .opened .fresh rfl
      (show Build.openUnit _ ⟨0⟩ "A.groovy" "" (.acceptingFirst 1) = .ok _ from rfl)
  have hboth := hfirst.opened rfl
    (show Build.openUnit _ ⟨1⟩ "B.groovy" "" .accepting = .ok _ from rfl)
  have hstopped := hboth.called (show Build.call _ 1 (.stage .resolve) = some (_, _) from rfl)
  have hrefused := hstopped.called (show Build.call _ 0 (.stage .populate) = some (_, _) from rfl)
  have hfresh : twoFiles.IsFresh := ⟨rfl, by simp [twoFiles]⟩
  have hfaults : ∀ fault ∈ twoFiles.faults, ∀ ms, fault.fault ≠ .multipleErrors ms := by
    simp [twoFiles]
  obtain ⟨v, messages, hv, hmessages, haccount⟩ :=
    diagnostics_conserved hfresh hfaults hrefused (by decide +kernel) List.mem_cons_self
  have hwaiting : messages = [.simple "late", .parser "elsewhere" ⟨1⟩ 0 0] :=
    Option.some.inj (hmessages.symm.trans (by decide +kernel))
  subst hwaiting
  exact ⟨_, _, v, hrefused, List.mem_cons_self, hv, hmessages, (haccount .conversion).1⟩

end Build

end HostBridge
