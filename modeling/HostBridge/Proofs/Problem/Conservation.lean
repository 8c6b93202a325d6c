import HostBridge.Problem.Recording

/-!
# Recording loses no problem

Recording hands diagnostics to a reporter, which may refuse any of them. Whatever it answers, the
diagnostics that it has accepted together with those of the messages that remain are the diagnostics
of all messages, in their order: `Site.diagnostics_record`. A message without a diagnostic always
remains, `Site.untranslatable_record`.

A diagnostic bears the phase for which it was recorded, and messages that remain may be recorded for
another one later on. The last section therefore compares diagnostics up to their phase,
`Diagnostic.atPhase`.
-/

namespace HostBridge

namespace Site

/-- The messages that have no diagnostic at the site. -/
def untranslatable (s : Site) (messages : List Source.Message) : List Source.Message :=
  messages.filter fun m => (s.diagnostic? m).isNone

theorem untranslatable_append (s : Site) (ms ms' : List Source.Message) :
    s.untranslatable (ms ++ ms') = s.untranslatable ms ++ s.untranslatable ms' :=
  List.filter_append ..

/-- **No problem is lost**, and none is reported twice: what has been accepted and what remains are
together what was there before. -/
theorem diagnostics_record (s : Site) (ms : List Source.Message) (r : Reporter) :
    (s.record ms r).reporter.diagnostics ++ (s.record ms r).remaining.filterMap s.diagnostic? =
      r.diagnostics ++ ms.filterMap s.diagnostic? := by
  induction ms generalizing r with
  | nil => rfl
  | cons m ms ih =>
    rw [record]
    cases hm : s.diagnostic? m with
    | none =>
      -- the message stays and adds nothing
      dsimp only
      rw [List.filterMap_cons_none hm, List.filterMap_cons_none hm]
      exact ih r
    | some d =>
      have hsubmit := r.diagnostics_submit d
      cases hnext : r.acceptsNext with
      | false =>
        -- the refused message and all after it remain
        have hrefused : (r.submit (.diagnostic d)).2 = false := hnext
        rw [hnext, if_neg Bool.false_ne_true, List.append_nil] at hsubmit
        simp only [hrefused, Bool.false_eq_true, if_false]
        rw [hsubmit]
      | true =>
        -- the diagnostic moves from the front of the messages to the end of the accepted ones
        have haccepted : (r.submit (.diagnostic d)).2 = true := hnext
        rw [hnext, if_pos rfl] at hsubmit
        simp only [haccepted, if_true]
        rw [ih, hsubmit, List.filterMap_cons_some hm, List.append_assoc, List.singleton_append]

/-- A message without a diagnostic remains. -/
theorem untranslatable_record (s : Site) (ms : List Source.Message) (r : Reporter) :
    s.untranslatable (s.record ms r).remaining = s.untranslatable ms := by
  induction ms generalizing r with
  | nil => rfl
  | cons m ms ih =>
    rw [record]
    cases hm : s.diagnostic? m with
    | none =>
      dsimp only
      rw [untranslatable, untranslatable, List.filter_cons_of_pos (by simp [hm]),
        List.filter_cons_of_pos (by simp [hm])]
      exact congrArg _ (ih r)
    | some d =>
      -- whether or not it is accepted, a message with a diagnostic does not count here
      dsimp only
      split
      · rw [ih, untranslatable, untranslatable, List.filter_cons_of_neg (by simp [hm])]
      · rfl

end Site

/-! ### Diagnostics up to their phase -/

/-- The same diagnostic as if it had been recorded for this phase. -/
def Diagnostic.atPhase (phase : Phase) (d : Diagnostic) : Diagnostic := { d with phase }

namespace Site

/-- The phase of a site counts only for the phase of its diagnostics. -/
theorem diagnostic?_atPhase (s : Site) (phase : Phase) (m : Source.Message) :
    (s.diagnostic? m).map (Diagnostic.atPhase phase) = ({ s with phase } : Site).diagnostic? m := by
  -- neither what a message says nor where depends on the phase
  rw [diagnostic?, diagnostic?, Option.map_map]
  cases m <;> rfl

theorem filterMap_diagnostic?_atPhase (s : Site) (phase : Phase) (ms : List Source.Message) :
    (ms.filterMap s.diagnostic?).map (Diagnostic.atPhase phase) =
      ms.filterMap ({ s with phase } : Site).diagnostic? := by
  rw [List.map_filterMap]
  congr 1
  funext m
  exact s.diagnostic?_atPhase phase m

theorem untranslatable_atPhase (s : Site) (phase : Phase) (ms : List Source.Message) :
    ({ s with phase } : Site).untranslatable ms = s.untranslatable ms := by
  refine List.filter_congr fun m _ => ?_
  rw [← s.diagnostic?_atPhase phase m, Option.isNone_map]

end Site

end HostBridge
