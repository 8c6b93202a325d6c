import HostBridge.Proofs.Session.Repetition
import HostBridge.Proofs.Session.Finish

/-!
# The comments of a resolved unit

Resolving a unit locates the comments of its module in the tree, and no other callback is about
comments. So one would expect them to stay there. But populating the unit replaces the whole tree by
the one that is built from the module, which has no comments yet, and nothing keeps populating from
coming last: if it was told to stop at first, it is tried again, and this may be after the unit has
been resolved. Resolving is not done a second time, so the comments are lost for good.

`Build.comments_of_resolved` says that this is the only way to lose them. What has to be known of a
history is whether the unit has been resolved, `IsResolved`, and whether its tree was built only
after that, `IsBuiltLate`. Each of the two is determined by one more answer at a time, and what a
stage does to the comments, `SourceUnit.CommentStep`, follows the same cases; so the invariant
`SourceUnit.Commented` is kept.
-/

namespace HostBridge

/-! ### What a history tells -/

/-- Resolving the unit has answered something other than that it was told to stop. -/
def IsResolved (answers : List Answer) (i : Nat) : Prop :=
  ∃ outcome, outcome ≠ .cancelled ∧ ⟨i, .resolve, outcome⟩ ∈ answers

/-- **Built late.** The tree of the unit has been built only after the unit had been resolved. -/
def IsBuiltLate (answers : List Answer) (i : Nat) : Prop :=
  ∃ before outcome after, answers = before ++ ⟨i, .resolve, outcome⟩ :: after ∧
    outcome ≠ .cancelled ∧ ⟨i, .populate, .success⟩ ∉ before ∧ ⟨i, .populate, .success⟩ ∈ after

section Answers

variable {answers : List Answer} {i : Nat} {a : Answer}

theorem IsBuiltLate.isResolved (h : IsBuiltLate answers i) : IsResolved answers i := by
  obtain ⟨before, outcome, after, rfl, hne, -⟩ := h
  exact ⟨outcome, hne, List.mem_append_right _ List.mem_cons_self⟩

theorem isResolved_concat :
    IsResolved (answers ++ [a]) i ↔
      IsResolved answers i ∨ ∃ outcome, outcome ≠ .cancelled ∧ a = ⟨i, .resolve, outcome⟩ := by
  rw [IsResolved, IsResolved, ← exists_or]
  refine exists_congr fun outcome => ?_
  rw [← and_or_left, List.mem_append, List.mem_singleton, eq_comm (a := a)]

/-- One more answer makes the tree late if it is the first success in populating, and the unit has
been resolved. -/
theorem isBuiltLate_concat :
    IsBuiltLate (answers ++ [a]) i ↔ IsBuiltLate answers i ∨
      (IsResolved answers i ∧ ⟨i, .populate, .success⟩ ∉ answers ∧
        a = ⟨i, .populate, .success⟩) := by
  constructor
  · rintro ⟨before, outcome, after, hsplit, hne, hbefore, hafter⟩
    obtain ⟨after, last, rfl⟩ := (List.eq_nil_or_concat after).resolve_left
      (List.ne_nil_of_mem hafter)
    rw [List.concat_eq_append] at hsplit hafter
    rw [← List.cons_append, ← List.append_assoc] at hsplit
    obtain ⟨rfl, hlast⟩ := List.append_inj' hsplit rfl
    obtain rfl := (List.cons.inj hlast).1
    by_cases hmem : ⟨i, .populate, .success⟩ ∈ after
    · exact Or.inl ⟨before, outcome, after, rfl, hne, hbefore, hmem⟩
    · -- then the success is the last answer
      refine Or.inr ⟨⟨outcome, hne, List.mem_append_right _ List.mem_cons_self⟩, ?_, ?_⟩
      · simpa [hbefore] using hmem
      · exact (List.mem_singleton.1 ((List.mem_append.1 hafter).resolve_left hmem)).symm
  · rintro (⟨before, outcome, after, rfl, hne, hbefore, hafter⟩ | ⟨⟨outcome, hne, hmem⟩, hnew, rfl⟩)
    · exact ⟨before, outcome, after ++ [a], by simp, hne, hbefore, List.mem_append_left _ hafter⟩
    · obtain ⟨before, after, rfl⟩ := List.append_of_mem hmem
      refine ⟨before, outcome, after ++ [⟨i, .populate, .success⟩], by simp, hne, ?_, by simp⟩
      exact fun hbefore => hnew (List.mem_append_left _ hbefore)

/-- An answer of another unit is neither. -/
theorem isResolved_concat_of_ne (h : a.unit ≠ i) :
    IsResolved (answers ++ [a]) i ↔ IsResolved answers i := by
  rw [isResolved_concat]
  refine or_iff_left ?_
  rintro ⟨outcome, -, rfl⟩
  exact h rfl

theorem isBuiltLate_concat_of_ne (h : a ≠ ⟨i, .populate, .success⟩) :
    IsBuiltLate (answers ++ [a]) i ↔ IsBuiltLate answers i := by
  rw [isBuiltLate_concat]
  exact or_iff_left fun hlate => h hlate.2.2

end Answers

/-! ### One stage -/

namespace SourceUnit

variable {u : SourceUnit} {s : Session} {stage : Stage}

/-- **Resolving** locates the comments, unless it is told to stop. -/
theorem comments_resolve {m : Source.Module} (hm : s.frontEnd.module? u.module = some m) :
    ((u.perform s .resolve).result = .cancelled ∧
        (u.perform s .resolve).unit.tree = u.tree) ∨
      ((u.perform s .resolve).result ≠ .cancelled ∧
        (u.perform s .resolve).unit.tree.comments = m.commentRanges) := by
  have hdriven := u.driven_processTo s Stage.resolve.target
  have hm' := (hdriven.module? u.module).trans hm
  have htree : (u.processTo s Stage.resolve.target).unit.tree = u.tree := by
    rw [hdriven.frame.1]
  rw [perform_eq, ← htree]
  generalize u.processTo s Stage.resolve.target = step at *
  by_cases hcancelled : step.result = .cancelled
  · rw [Step.finish_of_cancelled hcancelled]
    exact Or.inl ⟨hcancelled, rfl⟩
  · -- it depends on whether all tasks are accepted
    cases hsubmit : step.unit.reporter.submitAll (step.taskReports m) with
    | mk reporter accepted =>
      cases accepted with
      | true =>
        rw [Step.finish_resolve_of_accepted hcancelled hm' hsubmit]
        exact Or.inr ⟨hcancelled, rfl⟩
      | false =>
        rw [Step.finish_resolve_of_refused hcancelled hm' hsubmit]
        exact Or.inl ⟨rfl, rfl⟩

/-- **What running a stage does to the comments.** -/
inductive CommentStep (u : SourceUnit) (s : Session) (stage : Stage)
    (ranges : List CommentRange) : Prop
  /-- The unit is resolved. -/
  | located (hstage : stage = .resolve) (hresult : (u.run s stage).result ≠ .cancelled)
      (hcompleted : u.completed .resolve = none)
      (hcomments : (u.run s stage).unit.tree.comments = ranges)
  /-- The tree is built. -/
  | cleared (hstage : stage = .populate) (hresult : (u.run s stage).result = .success)
      (hcompleted : u.completed .populate = none)
      (hcomments : (u.run s stage).unit.tree.comments = [])
  /-- Neither is done for the first time. -/
  | kept (hcomments : (u.run s stage).unit.tree.comments = u.tree.comments)
      (hresolved : stage = .resolve → (u.run s stage).result ≠ .cancelled →
        u.completed .resolve ≠ none)
      (hbuilt : stage = .populate → (u.run s stage).result = .success →
        u.completed .populate = some .success)

theorem commentStep_run {m : Source.Module} (hm : s.frontEnd.module? u.module = some m)
    (stage : Stage) : CommentStep u s stage m.commentRanges := by
  cases hcompleted : u.completed stage with
  | some outcome =>
    have hrun := run_of_completed hcompleted s
    refine .kept (by rw [hrun]) (fun hstage _ => ?_) fun hstage hresult => ?_
    · rw [← hstage, hcompleted]
      nofun
    · rw [← hstage, hcompleted, ← hresult, hrun]
  | none =>
    have hrun := run_of_not_completed hcompleted s
    have htree : (u.run s stage).unit.tree = (u.perform s stage).unit.tree := by
      rw [hrun, Step.tree_noted]
    have hresult : (u.run s stage).result = (u.perform s stage).result := by
      rw [hrun, Step.result_noted]
    by_cases hstage : stage = .resolve
    · subst hstage
      rcases u.comments_resolve hm with ⟨hcancelled, hkept⟩ | ⟨hanswered, hlocated⟩
      · refine .kept (by rw [htree, hkept]) (fun _ hne => ?_) nofun
        exact absurd (hresult.trans hcancelled) hne
      · exact .located rfl (hresult ▸ hanswered) hcompleted (by rw [htree, hlocated])
    · cases u.treeStep_perform s stage with
      | kept hkept hfailed =>
        refine .kept (by rw [htree, hkept]) (fun h => absurd h hstage) fun h hsuccess => ?_
        exact absurd (hresult.symm.trans hsuccess) (hfailed h)
      | built m' hpopulate hsuccess _ hbuild =>
        refine .cleared hpopulate (hresult.trans hsuccess) (hpopulate ▸ hcompleted) ?_
        rw [htree, ← DeclarationTree.cleared_of_build hbuild]
        rfl
      | located m' h => exact absurd h hstage

/-! ### A history -/

variable {r : Recording} {answers : List Answer} {i : Nat}

/-- **The invariant of a history**: the comments are located from the time when the unit is resolved
to the time when its tree is built late. -/
structure Commented (r : Recording) (answers : List Answer) (i : Nat) (u : SourceUnit) : Prop where
  unresolved : ¬ IsResolved answers i → u.tree.comments = []
  located : IsResolved answers i → ¬ IsBuiltLate answers i →
    ∀ m, r.module? u.module = some m → u.tree.comments = m.commentRanges
  lost : IsBuiltLate answers i → u.tree.comments = []

/-- What an answer that is no first one leaves as it was. -/
theorem Commented.congr {w : SourceUnit} {answers' : List Answer} (h : Commented r answers i u)
    (hmodule : w.module = u.module) (hcomments : w.tree.comments = u.tree.comments)
    (hresolved : IsResolved answers' i ↔ IsResolved answers i)
    (hlate : IsBuiltLate answers' i ↔ IsBuiltLate answers i) : Commented r answers' i w where
  unresolved hnot := hcomments.trans (h.unresolved (hnot ∘ hresolved.2))
  located hres hnot m hm :=
    hcomments.trans (h.located (hresolved.1 hres) (hnot ∘ hlate.2) m (hmodule ▸ hm))
  lost h' := hcomments.trans (h.lost (hlate.1 h'))

end SourceUnit

namespace Build

open SourceUnit (Commented)

variable {r : Recording} {o : Options} {b : Build} {answers : List Answer} {i : Nat}
  {u : SourceUnit}

/-- A unit has completed resolving if it has been resolved. -/
theorem History.isResolved_iff (h : History r o answers b) (hu : b.units[i]? = some u) :
    IsResolved answers i ↔ u.completed .resolve ≠ none := by
  rw [h.completed_eq hu]
  constructor
  · rintro ⟨outcome, hne, hmem⟩
    exact firstOutcome?_ne_none hmem hne
  · intro hsome
    obtain ⟨outcome, hfirst⟩ := Option.ne_none_iff_exists'.1 hsome
    obtain ⟨hmem, hne⟩ := firstOutcome?_eq_some hfirst
    exact ⟨outcome, hne, hmem⟩

/-- **A stage** that is run keeps the invariant. -/
theorem History.commented_run (h : History r o answers b) (hu : b.units[i]? = some u)
    (hcommented : Commented r answers i u) (stage : Stage) :
    Commented r (answers ++ [⟨i, stage, (u.run b.session stage).result⟩]) i
      (u.run b.session stage).unit := by
  have hholds := h.holds hu
  obtain ⟨m, hm⟩ := Option.isSome_iff_exists.1 hholds.known
  have hmodule := u.module_run b.session stage
  cases SourceUnit.commentStep_run ((h.framed.modules u.module).trans hm) stage with
  | located hstage hresult hcompleted hcomments =>
    -- the tree is not late, since the unit has not been resolved before
    have hnot : ¬ IsResolved answers i := fun hres => (h.isResolved_iff hu).1 hres hcompleted
    have hres : IsResolved (answers ++ [⟨i, stage, (u.run b.session stage).result⟩]) i :=
      isResolved_concat.2 (Or.inr ⟨_, hresult, by rw [hstage]⟩)
    have hlate : ¬ IsBuiltLate (answers ++ [⟨i, stage, (u.run b.session stage).result⟩]) i := by
      rw [isBuiltLate_concat_of_ne fun heq => ?_]
      · exact fun hlate => hnot hlate.isResolved
      · exact absurd (hstage.symm.trans (Answer.mk.inj heq).2.1) nofun
    refine ⟨fun h' => absurd hres h', fun _ _ m' hm' => ?_, fun h' => absurd h' hlate⟩
    rw [hmodule, hm] at hm'
    rw [hcomments, Option.some.inj hm']
  | cleared hstage hresult hcompleted hcomments =>
    -- if the unit has been resolved before, then the tree is late
    have hnew : ⟨i, .populate, .success⟩ ∉ answers := fun hmem => by
      rw [hholds.populated.2 hmem] at hcompleted
      exact absurd hcompleted nofun
    refine ⟨fun _ => hcomments, fun hres hnot => ?_, fun _ => hcomments⟩
    rcases isResolved_concat.1 hres with hres | ⟨outcome, -, heq⟩
    · refine absurd (isBuiltLate_concat.2 (Or.inr ⟨hres, hnew, ?_⟩)) hnot
      rw [hresult, hstage]
    · exact absurd (hstage.symm.trans (Answer.mk.inj heq).2.1) nofun
  | kept hcomments hresolved hbuilt =>
    refine hcommented.congr hmodule hcomments ?_ ?_
    · rw [isResolved_concat]
      refine or_iff_left_of_imp ?_
      rintro ⟨outcome, hne, heq⟩
      obtain ⟨-, hstage, hresult⟩ := Answer.mk.inj heq
      exact (h.isResolved_iff hu).2 (hresolved hstage (hresult ▸ hne))
    · rw [isBuiltLate_concat]
      refine or_iff_left ?_
      rintro ⟨-, hnew, heq⟩
      obtain ⟨-, hstage, hresult⟩ := Answer.mk.inj heq
      exact hnew (hholds.populated.1 (hbuilt hstage hresult))

/-- The invariant holds of every unit at any time. -/
theorem History.commented (h : History r o answers b) (hu : b.units[i]? = some u) :
    Commented r answers i u := by
  refine h.unit_induction_of_history (motive := Commented r) ?_ ?_ ?_ ?_ ?_ hu
  · intro answers i id file reporter _ hnew
    have hnot : ¬ IsResolved answers i := fun ⟨outcome, _, hmem⟩ => hnew _ hmem rfl
    exact ⟨fun _ => rfl, fun hres => absurd hres hnot, fun _ => rfl⟩
  · intro answers b i u stage hb hu hcommented
    exact hb.commented_run hu hcommented stage
  · intro answers i u a ha hcommented
    refine hcommented.congr rfl rfl (isResolved_concat_of_ne ha) (isBuiltLate_concat_of_ne ?_)
    exact fun heq => ha (congrArg Answer.unit heq)
  · intro answers i u hcommented
    exact hcommented.congr rfl rfl Iff.rfl Iff.rfl
  · intro answers i u reporter hcommented
    exact hcommented.congr rfl rfl Iff.rfl Iff.rfl

/-- **The comments of a unit that has been resolved.** Take any history of a build, with any faults
and any reporters, in which resolving a unit has answered something other than that it was told to
stop. Then the tree of the unit has exactly the ranges of the comments of its module, in their
order, unless populating the unit has succeeded for the first time only after that; in this case it
has none. -/
theorem comments_of_resolved (h : History r o answers b) (hu : b.units[i]? = some u)
    {outcome : Outcome} (hanswered : ⟨i, .resolve, outcome⟩ ∈ answers)
    (hne : outcome ≠ .cancelled) :
    ∃ m, r.module? u.module = some m ∧
      (¬ IsBuiltLate answers i → u.tree.comments = m.commentRanges) ∧
      (IsBuiltLate answers i → u.tree.comments = []) := by
  have hcommented := h.commented hu
  obtain ⟨m, hm⟩ := Option.isSome_iff_exists.1 (h.holds hu).known
  refine ⟨m, hm, fun hnot => ?_, hcommented.lost⟩
  exact hcommented.located ⟨outcome, hne, hanswered⟩ hnot m hm

/-- A recording of one file with a comment, with the given faults. -/
def oneComment (faults : List ScheduledFault) : Recording where
  units := [{
    path := "A.groovy"
    module := {
      id := ⟨0⟩
      classes := [.plain "A" {}]
      comments := [.ofText .line "// a comment" 0 1] } }]
  faults := faults

/-- Populating and then resolving the unit. Populating it once more changes nothing. -/
theorem comments_of_resolved_populatedFirst :
    ∃ answers b u, History (oneComment []) {} answers b ∧ b.units[0]? = some u ∧
      answers = [⟨0, .populate, .success⟩, ⟨0, .resolve, .success⟩, ⟨0, .populate, .success⟩] ∧
      u.tree.comments = [⟨0, 11⟩] := by
  have hopened : History (oneComment []) {} _ _ :=
    .opened .fresh (show Build.openUnit _ ⟨0⟩ "A.groovy" "" .accepting = .ok _ from rfl)
  have hpopulated := hopened.ran (show Build.runStage _ 0 .populate = some (_, .success) from rfl)
  have hresolved := hpopulated.ran (show Build.runStage _ 0 .resolve = some (_, .success) from rfl)
  have hagain := hresolved.ran (show Build.runStage _ 0 .populate = some (_, .success) from rfl)
  obtain ⟨m, hm, hlocated, -⟩ := comments_of_resolved (i := 0) hagain rfl
    (List.mem_cons_of_mem _ List.mem_cons_self) nofun
  have hlate : ¬ IsBuiltLate
      [⟨0, .populate, .success⟩, ⟨0, .resolve, .success⟩, ⟨0, .populate, .success⟩] 0 := by
    rintro ⟨before, outcome, after, hsplit, -, hbefore, -⟩
    cases before with
    | nil => cases hsplit
    | cons a before =>
      -- the first answer is the success
      obtain rfl := (List.cons.inj hsplit).1
      exact hbefore List.mem_cons_self
  refine ⟨_, _, _, hagain, rfl, rfl, (hlocated hlate).trans ?_⟩
  cases hm
  decide +kernel

/-- **Comments that are lost.** Populating is told to stop, resolving the unit locates the comment,
and when populating is tried again it is gone. -/
theorem comments_lost :
    ∃ answers b u m, History (oneComment [⟨.conversion, .aborted⟩]) {} answers b ∧
      b.units[0]? = some u ∧ (oneComment [⟨.conversion, .aborted⟩]).module? u.module = some m ∧
      answers = [⟨0, .populate, .cancelled⟩, ⟨0, .resolve, .success⟩, ⟨0, .populate, .success⟩] ∧
      m.commentRanges = [⟨0, 11⟩] ∧ u.tree.comments = [] := by
  have hopened : History (oneComment [⟨.conversion, .aborted⟩]) {} _ _ :=
    .opened .fresh (show Build.openUnit _ ⟨0⟩ "A.groovy" "" .accepting = .ok _ from rfl)
  have hstopped := hopened.ran (show Build.runStage _ 0 .populate = some (_, .cancelled) from rfl)
  have hresolved := hstopped.ran (show Build.runStage _ 0 .resolve = some (_, .success) from rfl)
  have hpopulated := hresolved.ran (show Build.runStage _ 0 .populate = some (_, .success) from rfl)
  exact ⟨_, _, _, _, hpopulated, rfl, rfl, rfl, by decide +kernel, rfl⟩

end Build

end HostBridge
