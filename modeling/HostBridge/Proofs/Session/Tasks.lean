import HostBridge.Proofs.Session.Finish
import HostBridge.Proofs.Session.Repetition

/-!
# Which tasks the host has been told

Only resolving hands over task markers. An attempt to resolve that was told to stop has handed over
the first few of them, and the next attempt starts from the first one again; there is nothing that
remembers how far the attempt before has got. So after some attempts in vain and one that is not
stopped the host has been told these beginnings one after the other, and then all markers,
`Build.tasks_of_resolved`. The host has been told each marker once exactly if no attempt in vain
has got as far as to have one accepted.

One attempt is described by `SourceUnit.TaskStep`; what any event comes to for a unit by
`Build.UnitStep`. The invariant of a run is `Build.Handed`.
-/

namespace HostBridge

namespace Reporter

/-- The markers among some calls that were accepted. -/
def acceptedTasks (calls : List (Report × Bool)) : List TaskMarker :=
  ((calls.filter (·.2)).map (·.1)).filterMap Report.task?

theorem tasks_heard (r : Reporter) (calls : List (Report × Bool)) :
    (r.heard calls).tasks = r.tasks ++ acceptedTasks calls := by
  rw [tasks, accepted, heard, List.filter_append, List.map_append, List.filterMap_append]
  rfl

/-- Diagnostics are no tasks. -/
theorem acceptedTasks_of_diagnostics {calls : List (Report × Bool)}
    (h : ∀ call ∈ calls, call.1.task? = none) : acceptedTasks calls = [] := by
  rw [acceptedTasks, List.filterMap_eq_nil_iff]
  intro report hreport
  obtain ⟨call, hcall, rfl⟩ := List.mem_map.1 hreport
  exact h call (List.mem_of_mem_filter hcall)

/-- The calls that hand over some reports are about these reports. -/
theorem Submitted.mem_reports {reports : List Report} {calls : List (Report × Bool)}
    {accepted : Bool} (h : Submitted reports calls accepted) :
    ∀ call ∈ calls, call.1 ∈ reports := by
  cases h with
  | all reports =>
    intro call hcall
    obtain ⟨report, hreport, rfl⟩ := List.mem_map.1 hcall
    exact hreport
  | refused before report after =>
    intro call hcall
    rcases List.mem_append.1 hcall with hcall | hcall
    · obtain ⟨report', hreport', rfl⟩ := List.mem_map.1 hcall
      exact List.mem_append_left _ hreport'
    · rw [List.mem_singleton.1 hcall]
      exact List.mem_append_right _ List.mem_cons_self

theorem acceptedTasks_map (tasks : List TaskMarker) :
    acceptedTasks ((tasks.map Report.task).map fun report => (report, true)) = tasks := by
  induction tasks with
  | nil => rfl
  | cons t ts ih => exact congrArg (t :: ·) ih

/-- **Handing over markers.** All of them are accepted, or those before the one that is refused. -/
theorem Submitted.acceptedTasks_cases {tasks : List TaskMarker} {calls : List (Report × Bool)}
    {accepted : Bool} (h : Submitted (tasks.map .task) calls accepted) :
    (accepted = true ∧ acceptedTasks calls = tasks) ∨
      (accepted = false ∧ ∃ n, acceptedTasks calls = tasks.take n) := by
  generalize hreports : tasks.map Report.task = reports at h
  cases h with
  | all =>
    subst hreports
    exact .inl ⟨rfl, acceptedTasks_map tasks⟩
  | refused before report after =>
    refine .inr ⟨rfl, before.length, ?_⟩
    have hbefore : before = (tasks.take before.length).map .task := by
      rw [List.map_take, hreports, List.take_left]
    have hsplit : ∀ reports : List Report, acceptedTasks
        (reports.map (fun report => (report, true)) ++ [(report, false)]) =
        acceptedTasks (reports.map fun report => (report, true)) := by
      intro reports
      rw [acceptedTasks, List.filter_append]
      simp [acceptedTasks]
    rw [hsplit]
    conv_lhs => rw [hbefore]
    exact acceptedTasks_map _

end Reporter

/-! ### One attempt -/

namespace SourceUnit

variable {u : SourceUnit} {s : Session} {stage : Stage}

/-- Recording messages hands over no markers. -/
theorem tasks_record (site : Site) (ms : List Source.Message) (r : Reporter) :
    (site.record ms r).reporter.tasks = r.tasks := by
  obtain ⟨calls, accepted, hcalls, hreporter, -⟩ := site.record_cases ms r
  have hnone : Reporter.acceptedTasks calls = [] := by
    refine Reporter.acceptedTasks_of_diagnostics fun call hcall => ?_
    obtain ⟨d, -, hd⟩ := List.mem_map.1 (hcalls.mem_reports call hcall)
    rw [← hd]
    rfl
  rw [hreporter, Reporter.tasks_heard, hnone, List.append_nil]

/-- Driving hands over no markers. -/
theorem tasks_processTo (u : SourceUnit) (s : Session) (phase : Phase) :
    (u.processTo s phase).unit.reporter.tasks = u.reporter.tasks := by
  have hdriven := u.driven_processTo s phase
  generalize u.processTo s phase = step at *
  cases hdriven with
  | collected messages => exact tasks_record _ messages u.reporter
  | failed messages => exact tasks_record _ messages u.reporter
  | quiet | cancelled | broken => rfl

/-- Stages other than resolving hand over no markers. -/
theorem tasks_perform (u : SourceUnit) (s : Session) (hstage : stage ≠ .resolve) :
    (u.perform s stage).unit.reporter.tasks = u.reporter.tasks := by
  rw [perform_eq, ← u.tasks_processTo s stage.target]
  generalize u.processTo s stage.target = step
  cases stage with
  | resolve => exact absurd rfl hstage
  | analyse => rfl
  | populate =>
    rw [Step.finish]
    split
    · split
      · rfl
      · split <;> rfl
    · rfl
  | generate =>
    rw [Step.finish]
    split
    · split
      · rfl
      · rw [attributeAll_eq]
        rfl
    · rfl

/-- **What resolving hands over.** If it is told to stop, the first few of the markers; otherwise
all of them. -/
theorem tasks_resolve {m : Source.Module} (hm : s.frontEnd.module? u.module = some m) :
    ((u.perform s .resolve).result = .cancelled ∧ ∃ n,
        (u.perform s .resolve).unit.reporter.tasks =
          u.reporter.tasks ++ (Task.scan s.options.taskTags m.comments).take n) ∨
      ((u.perform s .resolve).result ≠ .cancelled ∧
        (u.perform s .resolve).unit.reporter.tasks =
          u.reporter.tasks ++ Task.scan s.options.taskTags m.comments) := by
  have hdriven := u.driven_processTo s Stage.resolve.target
  have hm' := (hdriven.module? u.module).trans hm
  have htasks := u.tasks_processTo s Stage.resolve.target
  have hoptions : (u.processTo s Stage.resolve.target).session.options = s.options := by
    rw [hdriven.frame.2]
  rw [perform_eq, ← htasks, ← hoptions]
  generalize u.processTo s Stage.resolve.target = step at *
  by_cases hcancelled : step.result = .cancelled
  · -- nothing is handed over after driving was told to stop
    rw [Step.finish_of_cancelled hcancelled]
    exact .inl ⟨hcancelled, 0, (List.append_nil _).symm⟩
  · obtain ⟨calls, accepted, hcalls, hsubmit⟩ :=
      Reporter.submitAll_cases (step.taskReports m) step.unit.reporter
    rcases hcalls.acceptedTasks_cases with ⟨rfl, hall⟩ | ⟨rfl, n, hsome⟩
    · rw [Step.finish_resolve_of_accepted hcancelled hm' hsubmit]
      refine .inr ⟨hcancelled, ?_⟩
      dsimp only
      rw [Reporter.tasks_heard, hall]
    · rw [Step.finish_resolve_of_refused hcancelled hm' hsubmit]
      refine .inl ⟨rfl, n, ?_⟩
      dsimp only
      rw [Reporter.tasks_heard, hsome]

/-- **What running a stage comes to** for the tasks of the unit. -/
inductive TaskStep (u : SourceUnit) (s : Session) (stage : Stage) (tasks : List TaskMarker) : Prop
  /-- No markers are handed over. Whether resolving has been completed stays as it is. -/
  | silent (htasks : (u.run s stage).unit.reporter.tasks = u.reporter.tasks)
      (hcompleted : (u.run s stage).unit.completed .resolve = u.completed .resolve)
      (hstage : stage = .resolve → u.completed .resolve = some (u.run s stage).result)
  /-- An attempt to resolve is told to stop after a few markers. -/
  | stopped (n : Nat) (hstage : stage = .resolve) (hresult : (u.run s stage).result = .cancelled)
      (hcompleted : u.completed .resolve = none)
      (hcompleted' : (u.run s stage).unit.completed .resolve = none)
      (htasks : (u.run s stage).unit.reporter.tasks = u.reporter.tasks ++ tasks.take n)
  /-- An attempt to resolve is not stopped. -/
  | handed (hstage : stage = .resolve) (hresult : (u.run s stage).result ≠ .cancelled)
      (hcompleted : u.completed .resolve = none)
      (hcompleted' : (u.run s stage).unit.completed .resolve ≠ none)
      (htasks : (u.run s stage).unit.reporter.tasks = u.reporter.tasks ++ tasks)

theorem taskStep_run {m : Source.Module} (hm : s.frontEnd.module? u.module = some m)
    (stage : Stage) : TaskStep u s stage (Task.scan s.options.taskTags m.comments) := by
  cases hcompleted : u.completed stage with
  | some outcome =>
    have hrun := run_of_completed hcompleted s
    refine .silent (by rw [hrun]) (by rw [hrun]) fun hstage => ?_
    rw [hrun, ← hstage, hcompleted]
  | none =>
    have hrun := run_of_not_completed hcompleted s
    obtain ⟨-, -, hkept⟩ := u.perform_kept s stage
    have hnoted : (u.run s stage).unit.completed .resolve =
        if Stage.resolve = stage ∧ (u.perform s stage).result ≠ .cancelled then
          some (u.perform s stage).result else u.completed .resolve := by
      rw [hrun, Step.completed_noted, hkept]
    have htasks : (u.run s stage).unit.reporter.tasks =
        (u.perform s stage).unit.reporter.tasks := by
      rw [hrun, Step.reporter_noted]
    have hresult : (u.run s stage).result = (u.perform s stage).result := by
      rw [hrun, Step.result_noted]
    by_cases hstage : stage = .resolve
    · subst hstage
      rcases u.tasks_resolve hm with ⟨hcancelled, n, hsome⟩ | ⟨hanswered, hall⟩
      · refine .stopped n rfl (hresult.trans hcancelled) hcompleted ?_ (htasks.trans hsome)
        rw [hnoted, if_neg fun h => h.2 hcancelled, hcompleted]
      · refine .handed rfl (hresult ▸ hanswered) hcompleted ?_ (htasks.trans hall)
        rw [hnoted, if_pos ⟨rfl, hanswered⟩]
        exact nofun
    · refine .silent (htasks.trans (u.tasks_perform s hstage)) ?_ fun h => absurd h hstage
      rw [hnoted, if_neg fun h => hstage h.1.symm]

end SourceUnit

/-! ### One event -/

/-- **Fair hosts.** A reporter has not been told anything when its unit is opened, and the host does
not change what it has been told. It may refuse and accept whatever it likes. -/
def Move.IsFair : Move → Prop
  | .openUnit _ _ _ reporter => reporter.transcript = []
  | .report _ change => ∀ r, (change r).transcript = r.transcript
  | _ => True

theorem Reporter.tasks_congr {r r' : Reporter} (h : r.transcript = r'.transcript) :
    r.tasks = r'.tasks := by
  rw [tasks, accepted, h, tasks, accepted]

namespace Build

variable {r : Recording} {o : Options} {b b' : Build} {events : List Event} {i : Nat}

/-- **What an event comes to** for a unit that is open after it. -/
inductive UnitStep (b : Build) (i : Nat) (e : Event) : SourceUnit → Prop
  /-- The unit has just been opened. -/
  | opened (id : Source.ModuleId) (file : SourceFile) (reporter : Reporter)
      (hnew : b.units.length ≤ i) (hanswer : e.answer? = none)
      (htold : e.move.IsFair → reporter.tasks = []) :
      UnitStep b i e { module := id, file, reporter }
  /-- A stage of the unit has been run. -/
  | ran (u : SourceUnit) (stage : Stage) (hu : b.units[i]? = some u)
      (hanswer : e.answer? = some ⟨i, stage, (u.run b.session stage).result⟩) :
      UnitStep b i e (u.run b.session stage).unit
  /-- No stage of the unit has been run. -/
  | other (u : SourceUnit) (tree : DeclarationTree) (reporter : Reporter)
      (hu : b.units[i]? = some u) (hanswer : ∀ a, e.answer? = some a → a.unit ≠ i)
      (htold : e.move.IsFair → reporter.tasks = u.reporter.tasks) :
      UnitStep b i e { u with tree, reporter }

/-- An event that gives no answer, and leaves the unit as it was. -/
theorem UnitStep.untouched {e : Event} {u : SourceUnit} (hanswer : e.answer? = none)
    (hu : b.units[i]? = some u) : UnitStep b i e u := by
  refine .other u u.tree u.reporter hu (fun a ha => ?_) fun _ => rfl
  rw [hanswer] at ha
  simp at ha

/-- A step of some unit that gives no answer. -/
theorem UnitStep.of_silent {e : Event} {j : Nat} {w u : SourceUnit} {tree : DeclarationTree}
    {reporter : Reporter} (hw : b.units[j]? = some w) (hanswer : e.answer? = none)
    (htold : e.move.IsFair → reporter.tasks = w.reporter.tasks)
    (hu : (b.units.set j { w with tree, reporter })[i]? = some u) : UnitStep b i e u := by
  rcases getElem?_set_cases hu with ⟨rfl, rfl⟩ | ⟨-, hu⟩
  · refine .other w tree reporter hw (fun a ha => ?_) htold
    rw [hanswer] at ha
    simp at ha
  · exact .untouched hanswer hu

theorem unitStep_of_move {e : Event} (hmove : b.move e.move = some (b', e.reply))
    {u : SourceUnit} (hu : b'.units[i]? = some u) : UnitStep b i e u := by
  obtain ⟨m, reply⟩ := e
  cases moved_of_move hmove with
  | @opened id path text reporter _ hopen =>
    obtain ⟨-, files, file, rfl⟩ := openUnit_cases hopen
    -- the new unit comes last
    rw [List.getElem?_append] at hu
    split at hu
    · exact .untouched rfl hu
    · next hlast =>
      rw [List.getElem?_singleton] at hu
      split at hu
      · obtain rfl := Option.some.inj hu
        refine .opened id file reporter (Nat.le_of_not_lt hlast) rfl fun hfair => ?_
        have hsame : reporter.tasks = Reporter.accepting.tasks := Reporter.tasks_congr hfair
        exact hsame
      · simp at hu
  | failed => exact .untouched rfl hu
  | @ran j w stage hw =>
    rcases getElem?_set_cases hu with ⟨rfl, rfl⟩ | ⟨hij, hu⟩
    · exact .ran w stage hw rfl
    · refine .other u u.tree u.reporter hu (fun a ha => ?_) fun _ => rfl
      rw [← Option.some.inj ha]
      exact hij
  | bound hw => exact .of_silent hw rfl (fun _ => rfl) hu
  | @recorded j w phase hw =>
    have htasks : (w.recordDiagnostics b.session phase).unit.reporter.tasks = w.reporter.tasks := by
      rw [SourceUnit.recordDiagnostics]
      split
      · rfl
      · exact SourceUnit.tasks_record _ _ _
    obtain ⟨⟨reporter, hunit⟩, -⟩ := recordDiagnostics_frame w b.session phase
    rw [hunit] at hu htasks
    exact .of_silent hw rfl (fun _ => htasks) hu
  | @driven j w phase hw =>
    have htasks := w.tasks_processTo b.session phase
    rw [(w.driven_processTo b.session phase).frame.1] at hu
    exact .of_silent hw rfl (fun _ => htasks) hu
  | @reported j w change hw =>
    exact .of_silent hw rfl (fun hfair => Reporter.tasks_congr (hfair w.reporter)) hu
  | registered bindings => exact .untouched rfl hu

/-! ### A run -/

/-- The markers that the host has been told for a unit. -/
def tasksOf (b : Build) (i : Nat) : List TaskMarker :=
  (b.units[i]?.map fun u => u.reporter.tasks).getD []

theorem tasksOf_eq {u : SourceUnit} (hu : b.units[i]? = some u) :
    b.tasksOf i = u.reporter.tasks := by
  rw [tasksOf, hu]
  rfl

/-- **Attempts in vain that are silent.** Whenever an attempt to resolve the unit was told to stop,
the host was not told any of its markers. -/
def StopsSilently (r : Recording) (o : Options) (events : List Event) (i : Nat) : Prop :=
  ∀ before e after b₁ b₂, events = before ++ e :: after →
    e.answer? = some ⟨i, .resolve, .cancelled⟩ → Run (fresh r o) before b₁ →
      b₁.move e.move = some (b₂, e.reply) → b₂.tasksOf i = b₁.tasksOf i

theorem stopsSilently_concat {e : Event} (h : Run (fresh r o) events b)
    (hmove : b.move e.move = some (b', e.reply)) :
    StopsSilently r o (events ++ [e]) i ↔ StopsSilently r o events i ∧
      (e.answer? = some ⟨i, .resolve, .cancelled⟩ → b'.tasksOf i = b.tasksOf i) := by
  constructor
  · intro hsilent
    refine ⟨fun before e' after b₁ b₂ hsplit => ?_, fun hanswer => ?_⟩
    · exact hsilent before e' (after ++ [e]) b₁ b₂ (by rw [hsplit]; simp)
    · exact hsilent events e [] b b' rfl hanswer h hmove
  · rintro ⟨hsilent, hlast⟩ before e' after b₁ b₂ hsplit hanswer hbefore hmove'
    -- the attempt is the last event, or one before it
    rcases List.eq_nil_or_concat after with rfl | ⟨after', e'', rfl⟩
    · obtain ⟨rfl, heq⟩ := List.append_inj' hsplit rfl
      obtain rfl := (List.cons.inj heq).1
      obtain rfl := hbefore.unique h
      obtain ⟨rfl, -⟩ := Prod.mk.inj (Option.some.inj (hmove'.symm.trans hmove))
      exact hlast hanswer
    · rw [List.concat_eq_append, ← List.cons_append, ← List.append_assoc] at hsplit
      obtain ⟨rfl, -⟩ := List.append_inj' hsplit rfl
      exact hsilent before e' after' b₁ b₂ rfl hanswer hbefore hmove'

/-- **The invariant of a run.** The attempts in vain have each handed over a beginning of the
markers, and the one that was not stopped, if there was one, all of them. -/
structure Handed (r : Recording) (o : Options) (events : List Event) (i : Nat) (u : SourceUnit)
    (tasks : List TaskMarker) (begun : List Nat) : Prop where
  attempts : begun.length = (answersAmong events).count ⟨i, .resolve, .cancelled⟩
  told : u.reporter.tasks =
    begun.flatMap (tasks.take ·) ++ if u.completed .resolve = none then [] else tasks
  silent : begun.flatMap (tasks.take ·) = [] ↔ StopsSilently r o events i

/-- An event that is no attempt in vain counts for nothing among the attempts. -/
theorem Handed.attempts_concat {u : SourceUnit} {tasks : List TaskMarker} {begun : List Nat}
    {e : Event} (h : Handed r o events i u tasks begun)
    (hanswer : e.answer? ≠ some ⟨i, .resolve, .cancelled⟩) :
    begun.length = (answersAmong (events ++ [e])).count ⟨i, .resolve, .cancelled⟩ := by
  rw [answersAmong_append, List.count_append, ← h.attempts, answersAmong_cons]
  cases he : e.answer? with
  | none => rfl
  | some a =>
    have hne : a ≠ ⟨i, .resolve, .cancelled⟩ := fun heq => hanswer (heq ▸ he)
    simp [answersAmong, hne]

/-- Nothing is told, and no attempt is stopped. -/
theorem Handed.other {u w : SourceUnit} {tasks : List TaskMarker} {begun : List Nat} {e : Event}
    (h : Handed r o events i u tasks begun) (hrun : Run (fresh r o) events b)
    (hmove : b.move e.move = some (b', e.reply))
    (hanswer : e.answer? ≠ some ⟨i, .resolve, .cancelled⟩)
    (htasks : w.reporter.tasks = u.reporter.tasks)
    (hcompleted : w.completed .resolve = u.completed .resolve) :
    Handed r o (events ++ [e]) i w tasks begun where
  attempts := h.attempts_concat hanswer
  told := by rw [htasks, hcompleted, h.told]
  silent := by
    rw [stopsSilently_concat hrun hmove, h.silent]
    exact ⟨fun hsilent => ⟨hsilent, fun heq => absurd heq hanswer⟩, And.left⟩

/-- A stage keeps the invariant. -/
theorem Handed.ran {u : SourceUnit} {tasks : List TaskMarker} {begun : List Nat} {e : Event}
    {stage : Stage} (h : Handed r o events i u tasks begun) (hrun : Run (fresh r o) events b)
    (hu : b.units[i]? = some u) (hmove : b.move e.move = some (b', e.reply))
    (hu' : b'.units[i]? = some (u.run b.session stage).unit)
    (hanswer : e.answer? = some ⟨i, stage, (u.run b.session stage).result⟩)
    (hstep : SourceUnit.TaskStep u b.session stage tasks) :
    ∃ begun, Handed r o (events ++ [e]) i (u.run b.session stage).unit tasks begun := by
  have hne (hresult : ¬ (stage = .resolve ∧ (u.run b.session stage).result = .cancelled)) :
      e.answer? ≠ some ⟨i, .resolve, .cancelled⟩ := by
    intro heq
    obtain ⟨-, hstage, hcancelled⟩ := Answer.mk.inj (Option.some.inj (hanswer.symm.trans heq))
    exact hresult ⟨hstage, hcancelled⟩
  cases hstep with
  | silent htasks hcompleted hstage =>
    refine ⟨begun, h.other hrun hmove (hne fun hstopped => ?_) htasks hcompleted⟩
    -- what has been completed was not told to stop
    have hnoted := (hrun.history.completed_eq hu .resolve).symm.trans (hstage hstopped.1)
    exact (firstOutcome?_eq_some hnoted).2 hstopped.2
  | stopped n hstage hresult hcompleted hcompleted' htasks =>
    have hanswer' : e.answer? = some ⟨i, .resolve, .cancelled⟩ := by
      rw [hanswer, hresult, hstage]
    have htold : u.reporter.tasks = begun.flatMap (tasks.take ·) := by
      rw [h.told, if_pos hcompleted, List.append_nil]
    refine ⟨begun ++ [n], ?_, ?_, ?_⟩
    · rw [answersAmong_append, List.count_append, ← h.attempts, answersAmong_cons, hanswer']
      simp [answersAmong]
    · rw [htasks, if_pos hcompleted', htold, List.flatMap_append]
      simp
    · rw [stopsSilently_concat hrun hmove, ← h.silent, tasksOf_eq hu, tasksOf_eq hu', htasks,
        List.flatMap_append, List.append_eq_nil_iff]
      simp [hanswer']
  | handed hstage hresult hcompleted hcompleted' htasks =>
    refine ⟨begun, h.attempts_concat (hne fun hstopped => hresult hstopped.2), ?_, ?_⟩
    · rw [htasks, if_neg hcompleted', h.told, if_pos hcompleted, List.append_nil]
    · rw [stopsSilently_concat hrun hmove, h.silent]
      exact ⟨fun hsilent => ⟨hsilent, fun heq =>
        absurd heq (hne fun hstopped => hresult hstopped.2)⟩, And.left⟩

/-- **The invariant holds in every run** with a fair host. -/
theorem Run.handed (h : Run (fresh r o) events b) (hfair : ∀ e ∈ events, e.move.IsFair)
    {u : SourceUnit} (hu : b.units[i]? = some u) {m : Source.Module}
    (hm : r.module? u.module = some m) :
    ∃ begun, Handed r o events i u (Task.scan o.taskTags m.comments) begun := by
  induction events using List.reverseRecOn generalizing b u with
  | nil =>
    cases h
    exact absurd hu nofun
  | append_singleton events e ih =>
    obtain ⟨b₁, hrun, hlast⟩ := run_append.1 h
    have hmove := run_singleton.1 hlast
    have hframed := hrun.history.framed
    have hfair' : ∀ e ∈ events, e.move.IsFair := fun e he => hfair e (List.mem_append_left _ he)
    have hfairLast : e.move.IsFair := hfair e (List.mem_append_right _ List.mem_cons_self)
    cases unitStep_of_move hmove hu with
    | opened id file reporter hnew hanswer htold =>
      -- a unit that is not open has not answered
      have hnone : ⟨i, .resolve, .cancelled⟩ ∉ answersAmong (events ++ [e]) := by
        rw [answersAmong_append, answersAmong_cons, hanswer]
        intro hmem
        have hlt := hframed.answered _ ((List.mem_append.1 hmem).resolve_right List.not_mem_nil)
        exact absurd hlt (Nat.not_lt.2 hnew)
      refine ⟨[], (List.count_eq_zero.2 hnone).symm, htold hfairLast, fun _ => ?_, fun _ => rfl⟩
      intro before e' after b₂ b₃ hsplit hanswer' _ _
      refine absurd ?_ hnone
      rw [hsplit, answersAmong_append, answersAmong_cons, hanswer']
      exact List.mem_append_right _ (List.mem_append_left _ (Option.mem_toList.2 rfl))
    | ran w stage hw hanswer =>
      rw [w.module_run b₁.session stage] at hm
      obtain ⟨begun, hhanded⟩ := ih hrun hfair' hw hm
      have hstep := SourceUnit.taskStep_run ((hframed.modules w.module).trans hm) stage
      rw [hframed.options] at hstep
      exact hhanded.ran hrun hw hmove hu hanswer hstep
    | other w tree reporter hw hanswer htold =>
      obtain ⟨begun, hhanded⟩ := ih hrun hfair' hw hm
      exact ⟨begun, hhanded.other hrun hmove (fun heq => hanswer _ heq rfl) (htold hfairLast) rfl⟩

/-- **The markers of a unit that has been resolved.** Take any run with a fair host, which may
refuse calls and accept later ones, in which resolving a unit has answered something other than that
it was told to stop. Then the host has been told the markers of the module, in order, and before
them, for each attempt that was told to stop, a beginning of the same markers. So it has been told
each marker once exactly if the attempts in vain were silent. -/
theorem tasks_of_resolved (h : Run (fresh r o) events b) (hfair : ∀ e ∈ events, e.move.IsFair)
    {u : SourceUnit} (hu : b.units[i]? = some u) {m : Source.Module}
    (hm : r.module? u.module = some m) {outcome : Outcome}
    (hanswered : ⟨i, .resolve, outcome⟩ ∈ answersAmong events) (hne : outcome ≠ .cancelled) :
    (∃ begun : List Nat,
      begun.length = (answersAmong events).count ⟨i, .resolve, .cancelled⟩ ∧
      u.reporter.tasks =
        begun.flatMap ((Task.scan o.taskTags m.comments).take ·) ++
          Task.scan o.taskTags m.comments) ∧
    (u.reporter.tasks = Task.scan o.taskTags m.comments ↔ StopsSilently r o events i) := by
  obtain ⟨begun, hattempts, htold, hsilent⟩ := h.handed hfair hu hm
  have hcompleted : u.completed .resolve ≠ none := by
    rw [h.history.completed_eq hu .resolve]
    exact firstOutcome?_ne_none hanswered hne
  rw [if_neg hcompleted] at htold
  refine ⟨⟨begun, hattempts, htold⟩, ?_⟩
  rw [htold, ← hsilent]
  exact List.append_left_eq_self

/-- A file with two tasks. -/
def twoTasks : Source.Module where
  id := ⟨0⟩
  comments := [.ofText .line "// TODO one" 0 1, .ofText .line "// TODO two" 12 2]

/-- A run over this file, in which the host refuses the second marker and then accepts all. -/
def refusedOnce : List Event :=
  [⟨.openUnit ⟨0⟩ "A.groovy" "" { accepts := fun call => call ≠ 1 }, .opened none⟩,
    ⟨.call 0 (.stage .resolve), .outcome (some .cancelled)⟩,
    ⟨.call 0 (.stage .resolve), .outcome (some .success)⟩]

theorem isFair_refusedOnce : ∀ e ∈ refusedOnce, e.move.IsFair := by
  simp [refusedOnce, Move.IsFair]

/-- The run hands over a beginning of the markers, and then all of them. -/
theorem tasks_of_resolved_refusedOnce :
    ∃ b u, Run (fresh { units := [{ path := "A.groovy", module := twoTasks }] } {}) refusedOnce b ∧
      b.units[0]? = some u ∧ ∃ begun : List Nat, begun.length = 1 ∧
        u.reporter.tasks = begun.flatMap ((Task.scan {} twoTasks.comments).take ·) ++
          Task.scan {} twoTasks.comments := by
  have hrun : Run (fresh { units := [{ path := "A.groovy", module := twoTasks }] } {})
      refusedOnce _ := .cons rfl (.cons rfl (.cons rfl (.nil _)))
  have hanswered : ⟨0, .resolve, .success⟩ ∈ answersAmong refusedOnce := by decide
  obtain ⟨⟨begun, hattempts, htold⟩, -⟩ :=
    tasks_of_resolved (m := twoTasks) hrun isFair_refusedOnce rfl rfl hanswered nofun
  exact ⟨_, _, hrun, rfl, begun, hattempts, htold⟩

/-- **The first marker is told twice** in this run: resolving was told to stop once and has then
answered with success, but the host has not been told each marker once. -/
theorem marker_told_twice :
    ∃ b u, Run (fresh { units := [{ path := "A.groovy", module := twoTasks }] } {}) refusedOnce b ∧
      (∀ e ∈ refusedOnce, e.move.IsFair) ∧ b.units[0]? = some u ∧
      u.completed .resolve = some .success ∧
      (Task.scan {} twoTasks.comments).map (·.message) = ["one", "two"] ∧
      u.reporter.tasks.map (·.message) = ["one", "one", "two"] ∧
      u.reporter.tasks ≠ Task.scan {} twoTasks.comments := by
  refine ⟨_, _, .cons rfl (.cons rfl (.cons rfl (.nil _))), isFair_refusedOnce, rfl, rfl, ?_, ?_,
    ?_⟩
  · decide +kernel
  · decide +kernel
  · decide +kernel

end Build

end HostBridge
