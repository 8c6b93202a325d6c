import HostBridge.Proofs.Places
import HostBridge.Proofs.Report.Submission

/-!
# Recording after a refusal

A reporter that accepts some calls and refuses the next one stops the recording of messages in the
middle. The messages whose diagnostics were accepted are gone then, and all others are left in their
order, `Site.remaining_record_acceptingNext`. So recording what is left goes on where the refusal
was: `Site.record_resumed` compares the two calls with a single one that is not interrupted.

What remains in the end are the messages that are not reported for the module at all,
`Site.passesOver`.

Messages may also be recorded in two passes, of which the first sets a flag for each message that is
accepted, and the second drops the messages with a flag. This comes to the same,
`Site.recordFlagged_eq`.
-/

namespace HostBridge

namespace Reporter

/-- The same reporter, whose host accepts a number of calls from now on and refuses all later
ones. -/
def acceptingNext (r : Reporter) (n : Nat) : Reporter :=
  { r with accepts := fun call => call < r.transcript.length + n, cancelled := false }

variable {r : Reporter} {n : Nat}

theorem acceptsNext_acceptingNext : (r.acceptingNext n).acceptsNext = decide (0 < n) := by
  simp [acceptsNext, acceptingNext]

/-- One of the calls has been made. -/
theorem heard_acceptingNext_succ (call : Report × Bool) :
    (r.acceptingNext (n + 1)).heard [call] = (r.heard [call]).acceptingNext n := by
  simp [heard, acceptingNext, Nat.add_assoc, Nat.add_comm 1]

/-- **What a reporter accepts that refuses after some calls**: the first ones. -/
theorem submitAll_acceptingNext (reports : List Report) (r : Reporter) (n : Nat) :
    (submitAll reports (r.acceptingNext n)).1.accepted = r.accepted ++ reports.take n ∧
      (submitAll reports (r.acceptingNext n)).2 = decide (reports.length ≤ n) := by
  induction reports generalizing r n with
  | nil => simp [submitAll, acceptingNext, accepted]
  | cons report reports ih =>
    cases n with
    | zero =>
      rw [submitAll_cons_of_refused acceptsNext_acceptingNext]
      simp [heard, acceptingNext, accepted]
    | succ n =>
      rw [submitAll_cons_of_accepted (by simp [acceptsNext_acceptingNext]),
        heard_acceptingNext_succ, (ih _ n).1, (ih _ n).2]
      simp [heard, accepted]

end Reporter

namespace Site

variable {s : Site}

/-- The messages that are not reported for the module: that the parser failed in another module,
that compilation was told to stop, and what is no problem of a text. -/
def passesOver (s : Site) : Source.Message → Bool
  | .simple _ | .located _ => false
  | .parser _ module _ _ => module ≠ s.module
  | .abort | .other _ => true

theorem isNone_diagnostic? (s : Site) (m : Source.Message) :
    (s.diagnostic? m).isNone = s.passesOver m := by
  cases m with
  | parser message module start stop =>
    by_cases h : module = s.module <;> simp [diagnostic?, finding?, passesOver, h]
  | _ => rfl

theorem untranslatable_eq (s : Site) (ms : List Source.Message) :
    s.untranslatable ms = ms.filter s.passesOver :=
  List.filter_congr fun m _ => s.isNone_diagnostic? m

/-- The places of the messages that have a diagnostic. -/
def translatable (s : Site) (ms : List Source.Message) : List Nat :=
  ms.findIdxs fun m => (s.diagnostic? m).isSome

theorem length_translatable (s : Site) (ms : List Source.Message) :
    (s.translatable ms).length = (ms.filterMap s.diagnostic?).length := by
  rw [translatable, List.length_findIdxs, List.length_filterMap_eq_countP]

/-- **What remains after a refusal**: all but the messages that were accepted. -/
theorem remaining_record_acceptingNext (s : Site) (ms : List Source.Message) (r : Reporter)
    (n : Nat) :
    (s.record ms (r.acceptingNext n)).remaining =
      withoutPlaces ((s.translatable ms).take n) ms := by
  induction ms generalizing r n with
  | nil => rfl
  | cons m ms ih =>
    rw [translatable, findIdxs_cons_shift]
    cases hm : s.diagnostic? m with
    | none =>
      rw [record_cons_of_none hm, if_neg (by simp), ← List.map_take, withoutPlaces_shift, ih]
      rfl
    | some d =>
      rw [if_pos (by simp)]
      cases n with
      | zero =>
        rw [record_cons_of_refused hm Reporter.acceptsNext_acceptingNext, List.take_zero,
          withoutPlaces_nil_left]
      | succ n =>
        rw [record_cons_of_accepted hm (by simp [Reporter.acceptsNext_acceptingNext]),
          Reporter.heard_acceptingNext_succ, List.take_succ_cons, ← List.map_take,
          withoutPlaces_zero_cons]
        exact ih _ n

/-- What the host has been told when it refuses. -/
theorem diagnostics_record_acceptingNext (s : Site) (ms : List Source.Message) (r : Reporter)
    (n : Nat) :
    (s.record ms (r.acceptingNext n)).reporter.diagnostics =
      r.diagnostics ++ (ms.filterMap s.diagnostic?).take n := by
  have htold : ((s.reports ms).take n).filterMap Report.diagnostic? =
      (ms.filterMap s.diagnostic?).take n := by
    rw [reports, ← List.map_take, List.filterMap_map]
    exact List.filterMap_some
  rw [(s.record_eq ms _).1, Reporter.diagnostics, (Reporter.submitAll_acceptingNext _ r n).1,
    List.filterMap_append, htold]
  rfl

/-! ### One flag for each message -/

/-- The messages whose flag is not set. There may be fewer flags than messages. -/
def unflagged : List Bool → List Source.Message → List Source.Message
  | _, [] => []
  | flags, m :: ms =>
    let rest := unflagged flags.tail ms
    if flags.headD false then rest else m :: rest

/-- Goes through messages with their places and sets the flags of those whose diagnostics are
accepted, until one is refused. -/
def flagAccepted (s : Site) : List (Source.Message × Nat) → List Bool → List Diagnostic →
    Reporter → List Bool × Reporter × Option (List Diagnostic)
  | [], flags, diagnostics, r => (flags, r, some diagnostics)
  | (m, place) :: rest, flags, diagnostics, r =>
    match s.diagnostic? m with
    | none => s.flagAccepted rest flags diagnostics r
    | some d =>
      let (r, accepted) := r.submit (.diagnostic d)
      if accepted then s.flagAccepted rest (flags.set place true) (diagnostics ++ [d]) r
      else (flags, r, none)

/-- **Recording in two passes**: one hands over the diagnostics and sets the flags, and the other
drops the messages whose flag is set. -/
def recordFlagged (s : Site) (ms : List Source.Message) (r : Reporter) : Recorded :=
  let (flags, r, diagnostics) :=
    s.flagAccepted ms.zipIdx (List.replicate ms.length false) [] r
  ⟨unflagged flags ms, r, diagnostics⟩

theorem unflagged_replicate (n : Nat) (ms : List Source.Message) :
    unflagged (List.replicate n false) ms = ms := by
  induction ms generalizing n with
  | nil => rfl
  | cons m ms ih =>
    cases n with
    | zero => exact congrArg (m :: ·) (ih 0)
    | succ n => exact congrArg (m :: ·) (ih n)

/-- The flags behind those of the messages that have been gone through are not set yet, and what
becomes of them says which messages remain. -/
theorem flagAccepted_spec (s : Site) (ms : List Source.Message) (done : List Bool)
    (diagnostics : List Diagnostic) (r : Reporter) :
    ∃ flags, s.flagAccepted (ms.zipIdx done.length) (done ++ List.replicate ms.length false)
        diagnostics r =
      (done ++ flags, (s.record ms r).reporter,
        (s.record ms r).diagnostics.map (diagnostics ++ ·)) ∧
      unflagged flags ms = (s.record ms r).remaining := by
  induction ms generalizing done diagnostics r with
  | nil => exact ⟨[], by simp [flagAccepted, record], rfl⟩
  | cons m ms ih =>
    rw [List.zipIdx_cons, flagAccepted, List.length_cons, List.replicate_succ]
    cases hm : s.diagnostic? m with
    | none =>
      obtain ⟨flags, hflags, hrest⟩ := ih (done ++ [false]) diagnostics r
      rw [List.length_append, List.length_singleton, List.append_assoc, List.singleton_append,
        List.append_assoc, List.singleton_append] at hflags
      rw [record_cons_of_none hm]
      exact ⟨false :: flags, hflags, congrArg (m :: ·) hrest⟩
    | some d =>
      cases hnext : r.acceptsNext with
      | false =>
        rw [record_cons_of_refused hm hnext]
        refine ⟨false :: List.replicate ms.length false, ?_,
          congrArg (m :: ·) (unflagged_replicate ms.length ms)⟩
        simp only [Reporter.submit, Reporter.heard, hnext]
        rfl
      | true =>
        obtain ⟨flags, hflags, hrest⟩ := ih (done ++ [true]) (diagnostics ++ [d])
          (r.heard [(.diagnostic d, true)])
        rw [List.length_append, List.length_singleton, List.append_assoc,
          List.singleton_append] at hflags
        rw [record_cons_of_accepted hm hnext]
        refine ⟨true :: flags, ?_, hrest⟩
        have hset : (done ++ false :: List.replicate ms.length false).set done.length true =
            done ++ true :: List.replicate ms.length false := by simp
        simp only [Reporter.submit, hnext, hset, if_true, Option.map_map]
        refine hflags.trans ?_
        simp [Function.comp_def]

/-- **Recording is recording in two passes.** -/
theorem recordFlagged_eq (s : Site) (ms : List Source.Message) (r : Reporter) :
    s.recordFlagged ms r = s.record ms r := by
  obtain ⟨flags, hflags, hremaining⟩ := s.flagAccepted_spec ms [] [] r
  rw [List.length_nil, List.nil_append, List.nil_append] at hflags
  rw [recordFlagged, hflags]
  dsimp only
  rw [hremaining]
  simp

/-- **Recording is taken up again** where the reporter refused: it has accepted the first
diagnostics, their messages are gone, and the second call leads to what a single one would have led
to. In the end only messages remain that are not reported for the module. Recording in two passes,
with flags for the messages that are accepted, does the same. -/
theorem record_resumed (s : Site) (ms : List Source.Message) (r : Reporter) (n : Nat) :
    let stopped := s.record ms (r.acceptingNext n)
    let resumed := s.record stopped.remaining stopped.reporter.obliging
    let whole := s.record ms r.obliging
    stopped.reporter.diagnostics = r.diagnostics ++ (ms.filterMap s.diagnostic?).take n ∧
      stopped.remaining = withoutPlaces ((s.translatable ms).take n) ms ∧
      (stopped.diagnostics = none ↔ n < (s.translatable ms).length) ∧
      resumed.reporter.diagnostics = whole.reporter.diagnostics ∧
      resumed.remaining = whole.remaining ∧
      resumed.diagnostics = some ((ms.filterMap s.diagnostic?).drop n) ∧
      resumed.remaining = ms.filter s.passesOver ∧
      ∀ ms r, s.recordFlagged ms r = s.record ms r := by
  intro stopped resumed whole
  have htold : stopped.reporter.diagnostics = _ := s.diagnostics_record_acceptingNext ms r n
  have hall : stopped.reporter.diagnostics ++ stopped.remaining.filterMap s.diagnostic? =
      r.diagnostics ++ ms.filterMap s.diagnostic? := s.diagnostics_record ms (r.acceptingNext n)
  -- nothing is told twice or skipped: what is left to tell is what the host has not been told
  have hleft : stopped.remaining.filterMap s.diagnostic? = (ms.filterMap s.diagnostic?).drop n := by
    rw [htold, List.append_assoc, List.append_cancel_left_eq] at hall
    exact List.append_cancel_left (hall.trans (List.take_append_drop n _).symm)
  have hkept : s.untranslatable stopped.remaining = s.untranslatable ms :=
    s.untranslatable_record ms (r.acceptingNext n)
  refine ⟨htold, s.remaining_record_acceptingNext ms r n, ?_, ?_, ?_, ?_, ?_, s.recordFlagged_eq⟩
  · rw [(s.record_eq ms _).2.1, (Reporter.submitAll_acceptingNext _ r n).2, reports,
      List.length_map, length_translatable]
    simp
  · rw [diagnostics_record_obliging, diagnostics_record_obliging, hall]
  · simp only [resumed, whole, record_obliging, hkept]
  · simp only [resumed, record_obliging, hleft]
  · simp only [resumed, record_obliging, hkept, untranslatable_eq]

end Site

end HostBridge
