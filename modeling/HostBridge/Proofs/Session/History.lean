import HostBridge.Proofs.Session.Run

/-!
# Histories of a build

Some properties of a run are about what has happened in it and not only about the state that it has
led to. `Build.History r o answers b` says that `b` is what some run makes of a fresh session with
the recording `r` and the options `o`, and that `answers` are the outcomes that the stages have
answered on the way, in their order.

A history leaves the host more freedom than `Build.Reachable` does. It may have the messages of a
unit recorded and drive the front end on behalf of a unit at any time, not only in the course of a
stage; and it owns the reporters and the environment, so it may change them as it likes.

What a history makes of a unit is shown by `History.unit_induction`: a unit is opened, runs stages,
gets its scope and its reporter changed, and does not notice what happens to the other units. A
stage may need what has been shown of histories before; `History.unit_induction_of_history` has it.
-/

namespace HostBridge

/-- What a stage of a unit has answered. -/
structure Answer where
  /-- The number of the unit. -/
  unit : Nat
  stage : Stage
  outcome : Outcome
deriving DecidableEq, Repr

namespace Build

variable {r : Recording} {o : Options} {b b' : Build} {answers : List Answer}

/-- **Histories of a build**, with all answers of stages. -/
inductive History (r : Recording) (o : Options) : List Answer → Build → Prop
  | fresh : History r o [] ⟨{ frontEnd := r, options := o }, []⟩
  | opened {answers : List Answer} {b b' : Build} (h : History r o answers b)
      {id : Source.ModuleId} {path text : String} {reporter : Reporter}
      (hopen : b.openUnit id path text reporter = .ok b') : History r o answers b'
  | ran {answers : List Answer} {b b' : Build} (h : History r o answers b) {i : Nat}
      {stage : Stage} {outcome : Outcome} (hrun : b.runStage i stage = some (b', outcome)) :
      History r o (answers ++ [⟨i, stage, outcome⟩]) b'
  | bound {answers : List Answer} {b b' : Build} (h : History r o answers b) {i : Nat}
      (hscope : b.buildScope i = some b') : History r o answers b'
  /-- The messages of a unit are recorded out of turn. -/
  | recorded {answers : List Answer} {b b' : Build} (h : History r o answers b) {i : Nat}
      {phase : Phase} {diagnostics : Option (List Diagnostic)}
      (hrecord : b.onUnit i (fun u s => u.recordDiagnostics s phase) = some (b', diagnostics)) :
      History r o answers b'
  /-- The front end is driven on behalf of a unit out of turn. -/
  | driven {answers : List Answer} {b b' : Build} (h : History r o answers b) {i : Nat}
      {phase : Phase} {outcome : Outcome}
      (hdrive : b.onUnit i (fun u s => u.processTo s phase) = some (b', outcome)) :
      History r o answers b'
  /-- The host changes the reporter of a unit. -/
  | reported {answers : List Answer} {b : Build} (h : History r o answers b) {i : Nat}
      {u : SourceUnit} (hu : b.units[i]? = some u) (reporter : Reporter) :
      History r o answers { b with units := b.units.set i { u with reporter } }
  /-- The host changes the environment. -/
  | registered {answers : List Answer} {b : Build} (h : History r o answers b)
      (environment : Environment) :
      History r o answers { b with session := { b.session with environment } }

/-! ### What a step of a unit does to the build -/

/-- What a step of a unit does: it changes this unit and the session. -/
theorem onUnit_cases {α : Type} {i : Nat} {f : SourceUnit → Session → Step α} {a : α}
    (h : b.onUnit i f = some (b', a)) :
    ∃ u, b.units[i]? = some u ∧ a = (f u b.session).result ∧
      b' = ⟨(f u b.session).session, b.units.set i (f u b.session).unit⟩ := by
  rw [onUnit] at h
  obtain ⟨u, hu, heq⟩ := Option.map_eq_some_iff.1 h
  obtain ⟨rfl, rfl⟩ := Prod.mk.inj heq
  exact ⟨u, hu, rfl, rfl⟩

theorem runStage_cases {i : Nat} {stage : Stage} {outcome : Outcome}
    (h : b.runStage i stage = some (b', outcome)) :
    ∃ u, b.units[i]? = some u ∧ outcome = (u.run b.session stage).result ∧
      b' = ⟨(u.run b.session stage).session, b.units.set i (u.run b.session stage).unit⟩ :=
  onUnit_cases h

theorem buildScope_cases {i : Nat} (h : b.buildScope i = some b') :
    ∃ u, b.units[i]? = some u ∧
      b' = ⟨(u.buildScope b.session).session, b.units.set i (u.buildScope b.session).unit⟩ := by
  rw [buildScope] at h
  obtain ⟨⟨b'', _⟩, hon, rfl⟩ := Option.map_eq_some_iff.1 h
  obtain ⟨u, hu, -, heq⟩ := onUnit_cases hon
  exact ⟨u, hu, heq⟩

/-- After one unit has changed, a unit is this one or one of the others. -/
theorem getElem?_set_cases {i j : Nat} {u w : SourceUnit}
    (h : (b.units.set i u)[j]? = some w) :
    (i = j ∧ w = u) ∨ (i ≠ j ∧ b.units[j]? = some w) := by
  rw [List.getElem?_set] at h
  by_cases hij : i = j
  · rw [if_pos hij] at h
    split at h
    · exact Or.inl ⟨hij, (Option.some.inj h).symm⟩
    · exact absurd h (by simp)
  · rw [if_neg hij] at h
    exact Or.inr ⟨hij, h⟩

/-! ### What all histories keep -/

/-- **The frame of a history.** The options and the modules stay, and only open units have
answered. -/
structure Framed (r : Recording) (o : Options) (answers : List Answer) (b : Build) : Prop where
  options : b.session.options = o
  modules : ∀ id, b.session.frontEnd.module? id = r.module? id
  answered : ∀ a ∈ answers, a.unit < b.units.length

/-- Recording the messages of a unit changes its reporter and the collector of its module. -/
theorem recordDiagnostics_frame (u : SourceUnit) (s : Session) (phase : Phase) :
    (∃ reporter, (u.recordDiagnostics s phase).unit = { u with reporter }) ∧
      (∃ frontEnd, (u.recordDiagnostics s phase).session = { s with frontEnd }) ∧
      ∀ id, (u.recordDiagnostics s phase).session.frontEnd.module? id = s.frontEnd.module? id := by
  rw [SourceUnit.recordDiagnostics]
  split
  · exact ⟨⟨_, rfl⟩, ⟨_, rfl⟩, fun _ => rfl⟩
  · exact ⟨⟨_, rfl⟩, ⟨_, rfl⟩, fun id => s.frontEnd.module?_setCollector u.module id _⟩

/-- A step that keeps the options and the modules keeps the frame. -/
theorem Framed.step (h : Framed r o answers b) {s : Session} {i : Nat} {u : SourceUnit}
    (hoptions : s.options = b.session.options)
    (hmodules : ∀ id, s.frontEnd.module? id = b.session.frontEnd.module? id) :
    Framed r o answers ⟨s, b.units.set i u⟩ where
  options := hoptions.trans h.options
  modules id := (hmodules id).trans (h.modules id)
  answered a ha := by
    rw [List.length_set]
    exact h.answered a ha

theorem History.framed (h : History r o answers b) : Framed r o answers b := by
  induction h with
  | fresh => exact ⟨rfl, fun _ => rfl, fun a ha => absurd ha List.not_mem_nil⟩
  | opened _ hopen ih =>
    obtain ⟨-, files, file, rfl⟩ := openUnit_cases hopen
    refine ⟨ih.options, ih.modules, fun a ha => ?_⟩
    rw [List.length_append]
    exact Nat.lt_add_right _ (ih.answered a ha)
  | @ran answers b b' _ i stage outcome hrun ih =>
    obtain ⟨u, hu, -, rfl⟩ := runStage_cases hrun
    obtain ⟨frontEnd, hsession⟩ := u.session_run b.session stage
    have hframed := ih.step (i := i) (u := (u.run b.session stage).unit)
      (by rw [hsession]) (u.module?_run b.session stage)
    refine ⟨hframed.options, hframed.modules, fun a ha => ?_⟩
    rcases List.mem_append.1 ha with ha | ha
    · exact hframed.answered a ha
    · rw [List.mem_singleton.1 ha, List.length_set]
      exact (List.getElem?_eq_some_iff.1 hu).1
  | bound _ hscope ih =>
    obtain ⟨u, -, rfl⟩ := buildScope_cases hscope
    exact ih.step rfl fun _ => rfl
  | recorded _ hrecord ih =>
    obtain ⟨u, -, -, rfl⟩ := onUnit_cases hrecord
    obtain ⟨-, ⟨frontEnd, hsession⟩, hmodules⟩ := recordDiagnostics_frame u _ _
    exact ih.step (by rw [hsession]) hmodules
  | @driven answers b _ _ _ phase _ hdrive ih =>
    obtain ⟨u, -, -, rfl⟩ := onUnit_cases hdrive
    have hdriven := u.driven_processTo b.session phase
    exact ih.step (by rw [hdriven.frame.2]) hdriven.module?
  | reported _ _ _ ih => exact ih.step rfl fun _ => rfl
  | registered _ _ ih => exact ⟨ih.options, ih.modules, ih.answered⟩

/-- **Induction over what happens to a unit.** In the case of a stage everything that is known of
histories is at hand for the build before it. -/
theorem History.unit_induction_of_history {motive : List Answer → Nat → SourceUnit → Prop}
    (opened : ∀ {answers : List Answer} {i : Nat} {id : Source.ModuleId} (file : SourceFile)
      (reporter : Reporter), (r.module? id).isSome → (∀ a ∈ answers, a.unit ≠ i) →
      motive answers i { module := id, file, reporter })
    (ran : ∀ {answers : List Answer} {b : Build} {i : Nat} {u : SourceUnit} (stage : Stage),
      History r o answers b → b.units[i]? = some u → motive answers i u →
      motive (answers ++ [⟨i, stage, (u.run b.session stage).result⟩]) i
        (u.run b.session stage).unit)
    (foreign : ∀ {answers : List Answer} {i : Nat} {u : SourceUnit} (a : Answer), a.unit ≠ i →
      motive answers i u → motive (answers ++ [a]) i u)
    (bound : ∀ {answers : List Answer} {i : Nat} {u : SourceUnit}, motive answers i u →
      motive answers i { u with tree := u.tree.bind })
    (reported : ∀ {answers : List Answer} {i : Nat} {u : SourceUnit} (reporter : Reporter),
      motive answers i u → motive answers i { u with reporter })
    (h : History r o answers b) {i : Nat} {u : SourceUnit} (hu : b.units[i]? = some u) :
    motive answers i u := by
  -- whatever happens to another unit is foreign, and whatever happens to this one has its own case
  induction h generalizing i u with
  | fresh => exact absurd hu (by simp)
  | @opened answers b b' hb id path text reporter hopen ih =>
    obtain ⟨hknown, files, file, rfl⟩ := openUnit_cases hopen
    rw [hb.framed.modules] at hknown
    -- the new unit comes last, and has not answered yet
    rw [List.getElem?_append] at hu
    split at hu
    · exact ih hu
    · next hlast =>
      rw [List.getElem?_singleton] at hu
      split at hu
      · obtain rfl := Option.some.inj hu
        refine opened file reporter hknown fun a ha heq => ?_
        exact hlast (heq ▸ hb.framed.answered a ha)
      · exact absurd hu (by simp)
  | ran hb hrun ih =>
    obtain ⟨w, hw, rfl, rfl⟩ := runStage_cases hrun
    rcases getElem?_set_cases hu with ⟨rfl, rfl⟩ | ⟨hij, hu⟩
    · exact ran _ hb hw (ih hw)
    · exact foreign _ hij (ih hu)
  | bound _ hscope ih =>
    obtain ⟨w, hw, rfl⟩ := buildScope_cases hscope
    rcases getElem?_set_cases hu with ⟨rfl, rfl⟩ | ⟨-, hu⟩
    · exact bound (ih hw)
    · exact ih hu
  | recorded _ hrecord ih =>
    obtain ⟨w, hw, -, rfl⟩ := onUnit_cases hrecord
    rcases getElem?_set_cases hu with ⟨rfl, rfl⟩ | ⟨-, hu⟩
    · obtain ⟨⟨reporter, hunit⟩, -⟩ := recordDiagnostics_frame w _ _
      rw [hunit]
      exact reported reporter (ih hw)
    · exact ih hu
  | driven _ hdrive ih =>
    obtain ⟨w, hw, -, rfl⟩ := onUnit_cases hdrive
    rcases getElem?_set_cases hu with ⟨rfl, rfl⟩ | ⟨-, hu⟩
    · rw [(w.driven_processTo _ _).frame.1]
      exact reported _ (ih hw)
    · exact ih hu
  | reported _ hw reporter ih =>
    rcases getElem?_set_cases hu with ⟨rfl, rfl⟩ | ⟨-, hu⟩
    · exact reported reporter (ih hw)
    · exact ih hu
  | registered _ _ ih => exact ih hu

/-- Induction over what happens to a unit, where no more is known in the case of a stage than that
the session has the options and the modules. -/
theorem History.unit_induction {motive : List Answer → Nat → SourceUnit → Prop}
    (opened : ∀ {answers : List Answer} {i : Nat} {id : Source.ModuleId} (file : SourceFile)
      (reporter : Reporter), (r.module? id).isSome → (∀ a ∈ answers, a.unit ≠ i) →
      motive answers i { module := id, file, reporter })
    (ran : ∀ {answers : List Answer} {i : Nat} {u : SourceUnit} (s : Session) (stage : Stage),
      s.options = o → (∀ id, s.frontEnd.module? id = r.module? id) → motive answers i u →
      motive (answers ++ [⟨i, stage, (u.run s stage).result⟩]) i (u.run s stage).unit)
    (foreign : ∀ {answers : List Answer} {i : Nat} {u : SourceUnit} (a : Answer), a.unit ≠ i →
      motive answers i u → motive (answers ++ [a]) i u)
    (bound : ∀ {answers : List Answer} {i : Nat} {u : SourceUnit}, motive answers i u →
      motive answers i { u with tree := u.tree.bind })
    (reported : ∀ {answers : List Answer} {i : Nat} {u : SourceUnit} (reporter : Reporter),
      motive answers i u → motive answers i { u with reporter })
    (h : History r o answers b) {i : Nat} {u : SourceUnit} (hu : b.units[i]? = some u) :
    motive answers i u :=
  h.unit_induction_of_history opened
    (fun stage hb _ => ran _ stage hb.framed.options hb.framed.modules) foreign bound reported hu

end Build

end HostBridge
