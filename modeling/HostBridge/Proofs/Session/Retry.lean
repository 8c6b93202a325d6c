import HostBridge.Proofs.FrontEnd.Idle
import HostBridge.Proofs.Session.Obliging

/-!
# Retries of a cancelled stage

A stage that answers that it was cancelled may be run again, and again, until it answers something
else: `SourceUnit.Retries`. One would expect that cancelling loses no problem: over all attempts the
reporter accepts what it would have accepted if it had never refused a call, and the stage ends with
success only if it would have ended so then.

Messages that wait in the collector are not lost, since those that a refusal leaves over stay there.
But there are two ways in which an attempt forgets what it has found, `SourceUnit.Forgets`. A fault
is raised only once, so the messages that it carries are gone when a refusal leaves them over,
`SourceUnit.Retries.fault_forgotten`. And when resolving finds problems and then a task is refused,
the next attempt finds them no more, `SourceUnit.Retries.problems_forgotten`.

These are the only ways. If no attempt forgets anything, then cancelling loses no problem,
`SourceUnit.Retries.loses_no_problem`. An attempt is cancelled by the front end, in which case it
has not found anything and the next one goes on where it has stopped; or it is refused a call. In
that case the next attempt finds the front end idle, and it is left with what the refused one has
not handed over.
-/

namespace HostBridge

/-- Two steps come to the same for the host: they are not cancelled, the reporter has accepted the
same diagnostics, and both are a success or neither is. -/
structure Step.Agrees (step step' : Step Outcome) : Prop where
  answered : step.result ≠ .cancelled
  answered' : step'.result ≠ .cancelled
  diagnostics : step.unit.reporter.diagnostics = step'.unit.reporter.diagnostics
  success : step.result = .success ↔ step'.result = .success

namespace SourceUnit

variable {u : SourceUnit} {s : Session} {stage : Stage} {final : Step Outcome}
  {attempts : List (SourceUnit × Session)}

/-- **Retrying a stage** after each time that it is cancelled. The states from which the cancelled
attempts have started are listed. -/
inductive Retries (stage : Stage) :
    List (SourceUnit × Session) → SourceUnit → Session → Step Outcome → Prop
  | answered {u : SourceUnit} {s : Session} (h : (u.run s stage).result ≠ .cancelled) :
      Retries stage [] u s (u.run s stage)
  | again {attempts : List (SourceUnit × Session)} {u : SourceUnit} {s : Session}
      {final : Step Outcome} (h : (u.run s stage).result = .cancelled)
      (rest : Retries stage attempts (u.run s stage).unit (u.run s stage).session final) :
      Retries stage ((u, s) :: attempts) u s final

/-- **What an attempt may forget** if it is cancelled: the problems that come with a fault, and that
driving has ended with problems or with a broken front end. -/
inductive Forgets (u : SourceUnit) (s : Session) (stage : Stage) : Prop
  | fault (messages : List Source.Message)
      (hfault : (s.frontEnd.compile stage.target).2 = some (.multipleErrors messages))
      (hproblems : messages ≠ [.abort])
  | outcome (hresult : (u.processTo s stage.target).result ≠ .cancelled)
      (hproblems : (u.processTo s stage.target).result ≠ .success)

/-- A stage that is not cancelled is not retried. -/
theorem Retries.eq_run (h : Retries stage attempts u s final)
    (hanswered : (u.run s stage).result ≠ .cancelled) : final = u.run s stage := by
  cases h with
  | answered => rfl
  | again hcancelled => exact absurd hcancelled hanswered

/-! ### What is forgotten -/

/-- A build with one file, which has a task; these messages and faults are scheduled. -/
def oneTask (pending : List ScheduledMessage) (faults : List ScheduledFault) : Session where
  frontEnd :=
    { units :=
        [{ path := "A.groovy"
           module := { id := ⟨0⟩, comments := [.ofText .line "// TODO" 0 1] }
           pending }]
      faults }

/-- The file of this build, with a reporter that refuses its second call. -/
def refusingSecond : SourceUnit where
  module := ⟨0⟩
  file := ⟨"A.groovy", ""⟩
  reporter := { accepts := fun call => call ≠ 1 }

/-- **The problems that come with a fault are forgotten.** The second of them is refused, and so the
next attempt ends with success; without the refusal the stage does not, and both are reported. -/
theorem Retries.fault_forgotten :
    ∃ s attempts final,
      s = oneTask [] [⟨.conversion, .multipleErrors [.simple "first", .simple "second"]⟩] ∧
      Retries .populate attempts refusingSecond s final ∧ final.result = .success ∧
      final.unit.reporter.diagnostics.length = 1 ∧
      ∀ attempts' final', Retries .populate attempts' refusingSecond.obliging s final' →
        final'.result ≠ .success ∧ final'.unit.reporter.diagnostics.length = 2 := by
  -- two attempts: the first one is refused a call, the second one has nothing left to find
  refine ⟨_, _, _, rfl, .again ?_ (.answered ?_), ?_, ?_, ?_⟩
  · decide +kernel
  · decide +kernel
  · decide +kernel
  · decide +kernel
  · intro attempts' final' hretries
    rw [hretries.eq_run (by decide +kernel)]
    decide +kernel

/-- **The problems that resolving has found are forgotten** if a task is refused. The next attempt
finds none and ends with success; without the refusal the stage does not. -/
theorem Retries.problems_forgotten :
    ∃ s attempts final, s = oneTask [⟨.semanticAnalysis, .simple "first"⟩] [] ∧
      Retries .resolve attempts refusingSecond s final ∧ final.result = .success ∧
      ∀ attempts' final', Retries .resolve attempts' refusingSecond.obliging s final' →
        final'.result ≠ .success := by
  refine ⟨_, _, _, rfl, .again ?_ (.answered ?_), ?_, ?_⟩
  · decide +kernel
  · decide +kernel
  · decide +kernel
  · intro attempts' final' hretries
    rw [hretries.eq_run (by decide +kernel)]
    decide +kernel

/-! ### One attempt -/

/-- An attempt in which nothing is refused is the same with an obliging host. -/
theorem run_obliging (h : (u.run s stage).result ≠ .cancelled) :
    u.obliging.run s stage = (u.run s stage).obliging := by
  cases hcompleted : u.completed stage with
  | some outcome =>
    have hcompleted' : u.obliging.completed stage = some outcome := hcompleted
    rw [run_of_completed hcompleted, run_of_completed hcompleted']
    rfl
  | none =>
    rw [run_of_not_completed hcompleted] at h ⊢
    rw [Step.result_noted] at h
    have hcompleted' : u.obliging.completed stage = none := hcompleted
    rw [run_of_not_completed hcompleted', perform_obliging h]
    -- the outcome is noted in both
    rw [Step.noted, Step.noted, if_neg h]
    exact if_neg h

/-- If driving two obliging units comes to the same, then so does the stage. -/
theorem agrees_run {w : SourceUnit} {t : Session} (hu : u.completed stage = none)
    (hw : w.completed stage = none)
    (h : Step.Agrees (u.obliging.processTo s stage.target) (w.obliging.processTo t stage.target))
    (hfinal : stage = .resolve ∨ (u.obliging.processTo s stage.target).result ≠ .success) :
    Step.Agrees (u.obliging.run s stage) (w.obliging.run t stage) := by
  have hu' : u.obliging.completed stage = none := hu
  have hw' : w.obliging.completed stage = none := hw
  have hresult := result_perform_obliging hfinal
  have hresult' := result_perform_obliging (u := w) (s := t)
    (hfinal.imp_right fun hne hsuccess => hne (h.success.2 hsuccess))
  obtain ⟨-, _, _, hdiagnostics, hunit⟩ := u.obliging.perform_frame s stage
  obtain ⟨-, _, _, hdiagnostics', hunit'⟩ := w.obliging.perform_frame t stage
  rw [run_of_not_completed hu', run_of_not_completed hw']
  refine ⟨?_, ?_, ?_, ?_⟩
  · rw [Step.result_noted, hresult]
    exact h.answered
  · rw [Step.result_noted, hresult']
    exact h.answered'
  · rw [Step.reporter_noted, Step.reporter_noted, hunit, hunit', hdiagnostics, hdiagnostics',
      h.diagnostics]
  · rw [Step.result_noted, Step.result_noted, hresult, hresult']
    exact h.success

/-- **After a refused message** the next attempt is left with the messages that remain. Those are
what an obliging unit has handed over beyond what has been accepted. -/
theorem agrees_of_refused {messages : List Source.Message}
    (hfault : (s.frontEnd.compile stage.target).2 = none)
    (hmessages : (s.frontEnd.compile stage.target).1.collector? u.module = some messages)
    (hne : messages ≠ [])
    (hrefused : ((u.site stage.target).record messages u.reporter).diagnostics = none)
    {w : SourceUnit} {t : Session}
    (hw : w = { u with
      reporter := ((u.site stage.target).record messages u.reporter).reporter })
    (ht : t = { s with
      frontEnd := (s.frontEnd.compile stage.target).1.setCollector u.module
        ((u.site stage.target).record messages u.reporter).remaining }) :
    Step.Agrees (u.obliging.processTo s stage.target) (w.obliging.processTo t stage.target) ∧
      (u.obliging.processTo s stage.target).result ≠ .success := by
  subst hw ht
  -- of the recording only these two facts and that it was refused matter from here on
  have hconserved := (u.site stage.target).diagnostics_record messages u.reporter
  have hne' := (u.site stage.target).remaining_ne_nil hrefused
  generalize (u.site stage.target).record messages u.reporter = recorded at *
  -- the front end is idle, and the collector has what remains
  have hidle := (Recording.compile_idle hfault).2 u.module recorded.remaining
  have hremaining : (((s.frontEnd.compile stage.target).1.setCollector u.module
      recorded.remaining).compile stage.target).1.collector? u.module =
      some recorded.remaining := by
    rw [hidle]
    exact Recording.collector?_setCollector_self (Option.isSome_of_eq_some hmessages)
  obtain ⟨hresult, hdiagnostics⟩ := processTo_obliging_collected hfault hmessages hne
  obtain ⟨hresult', hdiagnostics'⟩ := processTo_obliging_collected
    (u := { u with reporter := recorded.reporter })
    (s := { s with
      frontEnd := (s.frontEnd.compile stage.target).1.setCollector u.module recorded.remaining })
    (congrArg Prod.snd hidle) hremaining hne'
  refine ⟨⟨?_, ?_, ?_, ?_⟩, ?_⟩
  · rw [hresult]
    nofun
  · rw [hresult']
    nofun
  · -- what has been accepted and what remains is all there was
    rw [hdiagnostics, hdiagnostics']
    exact hconserved.symm
  · rw [hresult, hresult']
    exact ⟨nofun, nofun⟩
  · rw [hresult]
    nofun

/-- **After a refused task** the next attempt is left with the tasks. -/
theorem agrees_of_quiet (hfault : (s.frontEnd.compile stage.target).2 = none)
    (hquiet : ((s.frontEnd.compile stage.target).1.collector? u.module).getD [] = [])
    {w : SourceUnit} (hmodule : w.module = u.module)
    (hdiagnostics : w.reporter.diagnostics = u.reporter.diagnostics) :
    Step.Agrees (u.obliging.processTo s stage.target)
      (w.obliging.processTo { s with frontEnd := (s.frontEnd.compile stage.target).1 }
        stage.target) := by
  have hidle := (Recording.compile_idle hfault).1
  have hquiet' : (((s.frontEnd.compile stage.target).1.compile stage.target).1.collector?
      w.module).getD [] = [] := by
    rw [hidle, hmodule]
    exact hquiet
  rw [(Driven.quiet (u := u.obliging) hfault hquiet).eq,
    (Driven.quiet (u := w.obliging)
      (s := { s with frontEnd := (s.frontEnd.compile stage.target).1 })
      (congrArg Prod.snd hidle) hquiet').eq]
  exact ⟨nofun, nofun, hdiagnostics.symm, Iff.rfl⟩

/-- **What a cancelled attempt comes to**: it has been stopped by the front end, or it has been
refused a call and the next one is left with the rest. -/
theorem attempt_cases (hcancelled : (u.run s stage).result = .cancelled)
    (hkept : ¬ Forgets u s stage) :
    (∃ t, u.run s stage = ⟨u, t, .cancelled⟩ ∧
      u.obliging.run s stage = ⟨u.obliging, t, .cancelled⟩) ∨
      Step.Agrees (u.obliging.run s stage)
        ((u.run s stage).unit.obliging.run (u.run s stage).session stage) := by
  cases hcompleted : u.completed stage with
  | some outcome =>
    -- no stage notes that it was cancelled, but if one did, it would stay so
    have hcompleted' : u.obliging.completed stage = some outcome := hcompleted
    rw [run_of_completed hcompleted] at hcancelled
    obtain rfl : outcome = .cancelled := hcancelled
    exact Or.inl ⟨s, run_of_completed hcompleted s, run_of_completed hcompleted' s⟩
  | none =>
    have hcompleted' : u.obliging.completed stage = none := hcompleted
    rw [run_of_not_completed hcompleted, Step.result_noted] at hcancelled
    have hrun : u.run s stage = u.perform s stage := by
      rw [run_of_not_completed hcompleted, Step.noted_of_cancelled stage hcancelled]
    rw [hrun]
    have hdriven := u.driven_processTo s stage.target
    by_cases hstopped : (u.processTo s stage.target).result = .cancelled
    · -- driving has been stopped
      rw [perform_of_cancelled hstopped]
      generalize u.processTo s stage.target = step at hdriven hstopped
      cases hdriven with
      | quiet => exact absurd hstopped nofun
      | broken => exact absurd hstopped (by split <;> nofun)
      | failed messages hfault hproblems => exact absurd (.fault messages hfault hproblems) hkept
      | cancelled fault hfault hcancel =>
        have hstopped' := (Driven.cancelled (u := u.obliging) fault hfault hcancel).eq
        refine Or.inl ⟨_, rfl, ?_⟩
        rw [run_of_not_completed hcompleted', perform_of_cancelled (by rw [hstopped']), hstopped']
        exact if_pos rfl
      | collected messages hfault hmessages hne =>
        have hrefused : ((u.site stage.target).record messages u.reporter).diagnostics = none := by
          cases hrecorded : ((u.site stage.target).record messages u.reporter).diagnostics with
          | none => rfl
          | some diagnostics =>
            rw [hrecorded] at hstopped
            exact absurd hstopped nofun
        obtain ⟨hagrees, hproblems⟩ := agrees_of_refused hfault hmessages hne hrefused rfl rfl
        exact Or.inr (agrees_run hcompleted hcompleted hagrees (Or.inr hproblems))
    · -- driving has ended with success, and a task has been refused
      have hsuccess : (u.processTo s stage.target).result = .success := by
        by_contra hproblems
        exact hkept (.outcome hstopped hproblems)
      -- only resolving calls the reporter after driving
      have hstage : stage = .resolve :=
        Step.stage_of_finish_cancelled (u.perform_eq s stage ▸ hcancelled) hstopped
      obtain ⟨hsession, _, _, hdiagnostics, hunit⟩ := u.perform_frame s stage
      obtain ⟨hmodule, -, hnoted⟩ := u.perform_kept s stage
      rw [hsession]
      generalize u.processTo s stage.target = step at hdriven hsuccess hdiagnostics hunit
      cases hdriven with
      | quiet hfault hquiet =>
        refine Or.inr (agrees_run hcompleted (hnoted ▸ hcompleted) ?_ (Or.inl hstage))
        exact agrees_of_quiet hfault hquiet hmodule (by rw [hunit, hdiagnostics])
      | broken => exact absurd hsuccess (by split <;> nofun)
      | cancelled => exact absurd hsuccess nofun
      | collected | failed => exact absurd hsuccess (Outcome.ofRecorded_ne_success _)

/-! ### All attempts -/

/-- **Cancelling loses no problem**, unless an attempt forgets what it has found. Run a stage of a
unit again each time that it is cancelled, whatever calls its reporter refuses. If no attempt
forgets what it has found, then the diagnostics that the reporter has accepted in the end are those
that it would have accepted if it had never refused a call, in their order, and the stage ends with
success exactly if it would have ended so then. -/
theorem Retries.loses_no_problem (h : Retries stage attempts u s final)
    (hkept : ∀ attempt ∈ attempts, ¬ Forgets attempt.1 attempt.2 stage) :
    ∃ attempts' final', Retries stage attempts' u.obliging s final' ∧
      final.unit.reporter.diagnostics = final'.unit.reporter.diagnostics ∧
      (final.result = .success ↔ final'.result = .success) := by
  -- by induction on the attempts; the obliging unit keeps up until it needs no other attempt
  induction h with
  | answered hanswered =>
    have hrun := run_obliging hanswered
    refine ⟨[], _, .answered ?_, ?_, ?_⟩
    · rw [hrun]
      exact hanswered
    · rw [hrun]
      rfl
    · rw [hrun]
      rfl
  | @again attempts u s final hcancelled rest ih =>
    obtain ⟨attempts', final', hretries, hdiagnostics, hsuccess⟩ :=
      ih fun attempt hattempt => hkept attempt (List.mem_cons_of_mem _ hattempt)
    have hfirst := hkept (u, s) List.mem_cons_self
    rcases attempt_cases hcancelled hfirst with ⟨t, hrun, hrun'⟩ | hagrees
    · -- the obliging unit has been stopped as well
      rw [hrun] at hretries
      refine ⟨(u.obliging, s) :: attempts', final', .again ?_ ?_, hdiagnostics, hsuccess⟩
      · rw [hrun']
      · rw [hrun']
        exact hretries
    · -- the obliging unit needs one attempt, from here or from there
      obtain rfl := hretries.eq_run hagrees.answered'
      exact ⟨[], _, .answered hagrees.answered, hdiagnostics.trans hagrees.diagnostics.symm,
        hsuccess.trans hagrees.success.symm⟩

/-- The build with one file, for which two messages are scheduled. -/
def twoMessages : Session :=
  oneTask [⟨.conversion, .simple "first"⟩, ⟨.conversion, .simple "second"⟩] []

/-- The second of two messages in the collector is refused, but the next attempt hands it over. -/
theorem Retries.loses_no_problem_twoMessages :
    ∃ attempts final, Retries .populate attempts refusingSecond twoMessages final ∧
      (∀ attempt ∈ attempts, ¬ Forgets attempt.1 attempt.2 .populate) ∧ attempts.length = 1 ∧
      final.unit.reporter.diagnostics.length = 2 ∧
      ∃ attempts' final', Retries .populate attempts' refusingSecond.obliging twoMessages final' ∧
        final.unit.reporter.diagnostics = final'.unit.reporter.diagnostics := by
  have hretries : Retries .populate _ refusingSecond twoMessages _ :=
    .again (by decide +kernel) (.answered (by decide +kernel))
  have hkept : ∀ attempt ∈ [(refusingSecond, twoMessages)],
      ¬ Forgets attempt.1 attempt.2 .populate := by
    intro attempt hattempt hforgets
    obtain rfl := List.mem_singleton.1 hattempt
    cases hforgets with
    | fault messages hfault =>
      have hnone : (twoMessages.frontEnd.compile .conversion).2 = none := by decide +kernel
      exact absurd (hnone.symm.trans hfault) nofun
    | outcome hresult => exact hresult (by decide +kernel)
  obtain ⟨attempts', final', hretries', hdiagnostics, -⟩ := hretries.loses_no_problem hkept
  exact ⟨_, _, hretries, hkept, rfl, by decide +kernel, attempts', final', hretries', hdiagnostics⟩

end SourceUnit

end HostBridge
