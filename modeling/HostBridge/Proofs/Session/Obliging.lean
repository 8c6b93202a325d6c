import HostBridge.Proofs.Session.Finish

/-!
# Stages with a host that never refuses

To tell what a refusal costs, a stage is compared with the same stage of `SourceUnit.obliging`, the
unit with a host that accepts every call from now on.

If nothing is refused anyway, then the two stages do the same: `SourceUnit.perform_obliging`. In any
case the obliging unit hands over all messages that are there to record, and it tells the outcome of
driving: problems that are found, or success, cannot get lost by a refusal,
`SourceUnit.result_perform_obliging`.
-/

namespace HostBridge

/-- The same unit with a host that accepts every call from now on. -/
def SourceUnit.obliging (u : SourceUnit) : SourceUnit :=
  { u with reporter := u.reporter.obliging }

/-- The same step with a host that accepts every call from then on. -/
def Step.obliging {α : Type} (step : Step α) : Step α := { step with unit := step.unit.obliging }

/-! ### Handing over -/

/-- If no report is refused, then an obliging host makes no difference. -/
theorem Reporter.submitAll_obliging_of_accepted {reports : List Report} {r : Reporter}
    (h : (submitAll reports r).2 = true) :
    submitAll reports r.obliging = ((submitAll reports r).1.obliging, true) := by
  obtain ⟨calls, accepted, hcalls, heq⟩ := submitAll_cases reports r
  rw [heq] at h
  obtain rfl : accepted = true := h
  rw [submitAll_obliging, heq, hcalls.calls_eq]

namespace Site

variable {s : Site} {ms : List Source.Message} {r : Reporter}

/-- If no message is refused, then an obliging host makes no difference. -/
theorem record_obliging_of_accepted (h : (s.record ms r).diagnostics ≠ none) :
    s.record ms r.obliging =
      { s.record ms r with reporter := (s.record ms r).reporter.obliging } := by
  obtain ⟨calls, accepted, hcalls, hreporter, hdiagnostics, hremaining⟩ := s.record_cases ms r
  cases accepted with
  | false => exact absurd hdiagnostics h
  | true =>
    rw [record_obliging, ← hremaining rfl, ← hcalls.calls_eq, ← hreporter]
    exact congrArg _ hdiagnostics.symm

/-- A message that is refused remains. -/
theorem remaining_ne_nil (h : (s.record ms r).diagnostics = none) :
    (s.record ms r).remaining ≠ [] := by
  -- the first message remains, or the others are recorded from there on
  induction ms generalizing r with
  | nil => exact absurd h nofun
  | cons m ms ih =>
    cases hm : s.diagnostic? m with
    | none =>
      rw [record_cons_of_none hm]
      exact List.cons_ne_nil m _
    | some d =>
      cases hnext : r.acceptsNext with
      | true =>
        rw [record_cons_of_accepted hm hnext] at h ⊢
        exact ih (Option.map_eq_none_iff.1 h)
      | false =>
        rw [record_cons_of_refused hm hnext]
        exact List.cons_ne_nil m ms

end Site

namespace SourceUnit

variable {u : SourceUnit} {s : Session} {phase : Phase} {stage : Stage} {step : Step Outcome}

/-! ### Driving -/

/-- How driving ends is a function of the unit and the session. -/
theorem Driven.eq (h : Driven u s phase step) : u.processTo s phase = step := by
  unfold processTo
  dsimp only
  -- each way to end tells which branch is taken
  cases h with
  | quiet hfault hquiet =>
    rw [hfault]
    dsimp only
    split
    · rfl
    · rfl
    · next hmessages => exact absurd (hmessages ▸ hquiet) (by simp)
  | collected messages hfault hmessages hne =>
    rw [hfault]
    dsimp only
    rw [hmessages]
    cases messages with
    | nil => exact absurd rfl hne
    | cons m ms =>
      dsimp only
      unfold recordDiagnostics
      rw [hmessages]
  | cancelled fault hfault hcancel =>
    rw [hfault]
    dsimp only
    unfold handleFault
    rw [if_pos hcancel]
  | failed messages hfault hproblems =>
    rw [hfault]
    dsimp only
    unfold handleFault
    rw [if_neg (by rw [Source.CompileFault.isCancellation_iff]; simpa using hproblems)]
  | broken message hfault =>
    rw [hfault]
    dsimp only
    unfold handleFault
    rw [if_neg (by simp [Source.CompileFault.isCancellation])]
    dsimp only
    split <;> rfl

/-- **Driving in which nothing is refused** is the same with an obliging host. -/
theorem Driven.obliging (h : Driven u s phase step)
    (haccepted : step.result = .cancelled →
      ∃ fault, (s.frontEnd.compile phase).2 = some fault ∧ fault.isCancellation = true) :
    Driven u.obliging s phase step.obliging := by
  cases h with
  | quiet hfault hquiet => exact .quiet hfault hquiet
  | cancelled fault hfault hcancel => exact .cancelled fault hfault hcancel
  | broken message hfault => exact .broken message hfault
  | collected messages hfault hmessages hne =>
    -- a refusal would be a cancellation that no fault accounts for
    have hrecorded : ((u.site phase).record messages u.reporter).diagnostics ≠ none := by
      intro hnone
      rw [hnone] at haccepted
      obtain ⟨fault, hfault', -⟩ := haccepted rfl
      exact absurd (hfault.symm.trans hfault') nofun
    have hdriven := Driven.collected (u := u.obliging) messages hfault hmessages hne
    rwa [show (u.obliging.site phase).record messages u.obliging.reporter = _ from
      Site.record_obliging_of_accepted hrecorded] at hdriven
  | failed messages hfault hproblems =>
    have hrecorded : ((u.site phase).record messages u.reporter).diagnostics ≠ none := by
      intro hnone
      rw [hnone] at haccepted
      obtain ⟨fault, hfault', hcancel⟩ := haccepted rfl
      obtain rfl := Option.some.inj (hfault.symm.trans hfault')
      rw [Source.CompileFault.isCancellation_iff] at hcancel
      exact hproblems (by simpa using hcancel)
    have hdriven := Driven.failed (u := u.obliging) messages hfault hproblems
    rwa [show (u.obliging.site phase).record messages u.obliging.reporter = _ from
      Site.record_obliging_of_accepted hrecorded] at hdriven

/-- An obliging host stays one. -/
theorem Driven.reporter_obliging (h : Driven u.obliging s phase step) :
    step.unit.reporter = step.unit.reporter.obliging := by
  have hrecord : ∀ messages, ((u.site phase).record messages u.reporter.obliging).reporter =
      ((u.site phase).record messages u.reporter.obliging).reporter.obliging := by
    intro messages
    rw [Site.record_obliging]
    rfl
  cases h with
  | collected messages => exact hrecord messages
  | failed messages => exact hrecord messages
  | quiet | cancelled | broken => rfl

theorem processTo_obliging (h : (u.processTo s phase).result ≠ .cancelled) :
    u.obliging.processTo s phase = (u.processTo s phase).obliging :=
  ((u.driven_processTo s phase).obliging fun hresult => absurd hresult h).eq

/-- Driving an obliging unit hands over the messages in the collector. -/
theorem processTo_obliging_collected {messages : List Source.Message}
    (hfault : (s.frontEnd.compile phase).2 = none)
    (hmessages : (s.frontEnd.compile phase).1.collector? u.module = some messages)
    (hne : messages ≠ []) :
    (u.obliging.processTo s phase).result =
        .recoverableErrors (messages.filterMap (u.site phase).diagnostic?) ∧
      (u.obliging.processTo s phase).unit.reporter.diagnostics =
        u.reporter.diagnostics ++ messages.filterMap (u.site phase).diagnostic? := by
  have hdriven := (Driven.collected (u := u.obliging) messages hfault hmessages hne).eq
  rw [hdriven]
  refine ⟨?_, (u.site phase).diagnostics_record_obliging messages u.reporter⟩
  have hrecord := (u.site phase).record_obliging messages u.reporter
  exact congrArg (fun recorded => Outcome.ofRecorded recorded.diagnostics) hrecord

end SourceUnit

/-! ### Stages -/

/-- **To finish a stage in which nothing is refused** is the same with an obliging host. -/
theorem Step.finish_obliging {id : Source.ModuleId} {step : Step Outcome} {stage : Stage}
    (h : (step.finish id stage).result ≠ .cancelled) :
    step.obliging.finish id stage = (step.finish id stage).obliging := by
  have hresult : step.result ≠ .cancelled := by
    intro hcancelled
    rw [finish_of_cancelled hcancelled] at h
    exact h hcancelled
  by_cases hfinal : step.result ≠ .success ∧ stage ≠ .resolve
  · -- there is nothing left to do
    rw [finish_of_ne_success hfinal.1 hfinal.2]
    exact finish_of_ne_success hfinal.1 hfinal.2
  -- the reporter plays no part in the others but for the class files, which are never refused
  cases stage with
  | populate =>
    have hsuccess : step.result.isSuccess = true := by simpa [Outcome.isSuccess] using hfinal
    simp only [finish, obliging, hsuccess, if_true]
    split
    · rfl
    · split <;> rfl
  | resolve =>
    cases hm : step.session.frontEnd.module? id with
    | none =>
      rw [finish_resolve_of_none hm]
      exact finish_resolve_of_none hm
    | some m =>
      rcases htasks : step.unit.reporter.submitAll (step.taskReports m) with ⟨r, accepted⟩
      cases accepted with
      | false =>
        rw [finish_resolve_of_refused hresult hm htasks] at h
        exact absurd rfl h
      | true =>
        have htasks' := Reporter.submitAll_obliging_of_accepted (congrArg Prod.snd htasks)
        rw [finish_resolve_of_accepted hresult hm htasks]
        rw [htasks] at htasks'
        exact finish_resolve_of_accepted hresult hm htasks'
  | analyse => rfl
  | generate =>
    have hsuccess : step.result.isSuccess = true := by simpa [Outcome.isSuccess] using hfinal
    simp only [finish, obliging, hsuccess, if_true]
    split
    · rfl
    · simp only [attributeAll_eq]
      rfl

namespace SourceUnit

variable {u : SourceUnit} {s : Session} {stage : Stage}

/-- **A stage in which nothing is refused** is the same with an obliging host. -/
theorem perform_obliging (h : (u.perform s stage).result ≠ .cancelled) :
    u.obliging.perform s stage = (u.perform s stage).obliging := by
  rw [perform_eq] at h
  have hdriven : (u.processTo s stage.target).result ≠ .cancelled := by
    intro hcancelled
    rw [Step.finish_of_cancelled hcancelled] at h
    exact h hcancelled
  rw [perform_eq, perform_eq, processTo_obliging hdriven]
  exact Step.finish_obliging h

/-- **The outcome of an obliging unit** is how driving it has ended, if that is not success. In
resolving it always is. -/
theorem result_perform_obliging
    (h : stage = .resolve ∨ (u.obliging.processTo s stage.target).result ≠ .success) :
    (u.obliging.perform s stage).result = (u.obliging.processTo s stage.target).result := by
  rw [perform_eq]
  have hobliging := (u.obliging.driven_processTo s stage.target).reporter_obliging
  generalize u.obliging.processTo s stage.target = step at *
  by_cases hstage : stage = .resolve
  · subst hstage
    by_cases hresult : step.result = .cancelled
    · rw [Step.finish_of_cancelled hresult]
    · cases hm : step.session.frontEnd.module? u.module with
      | none => rw [show u.obliging.module = u.module from rfl, Step.finish_resolve_of_none hm]
      | some m =>
        -- an obliging host accepts all tasks
        have htasks := Reporter.submitAll_obliging (step.taskReports m) step.unit.reporter
        rw [← hobliging] at htasks
        rw [show u.obliging.module = u.module from rfl,
          Step.finish_resolve_of_accepted hresult hm htasks]
  · rw [Step.finish_of_ne_success (h.resolve_left hstage) hstage]

end SourceUnit

end HostBridge
