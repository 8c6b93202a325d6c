import HostBridge.Proofs.Session.History

/-!
# Events of a build

A history tells what the stages have answered on the way to a build. To compare two runs with each
other one needs all that has happened, as data. What the host does is a `Move`, what comes of it a
`Reply`, and the two together are an `Event`; a run is a list of events that leads from one build to
another, `Build.Run`.

The host may open units, also in vain; call them back; have their messages recorded or the front end
driven on their behalf out of turn; do with the reporter of a unit what it likes; and register types
in the environment.

* `Build.run_append` — a run can be cut into two at any event;
* `Build.moved_of_move` — what a move comes to, one case for each kind;
* `Build.Run.history` — a run from a fresh build is a history, whose answers are those among the
  events.
-/

namespace HostBridge

/-- What the host does. -/
inductive Move where
  | openUnit (id : Source.ModuleId) (path text : String) (reporter : Reporter)
  | call (unit : Nat) (callback : Callback)
  /-- The messages of a unit are recorded out of turn. -/
  | record (unit : Nat) (phase : Phase)
  /-- The front end is driven on behalf of a unit out of turn. -/
  | drive (unit : Nat) (phase : Phase)
  /-- The host changes the reporter of a unit. -/
  | report (unit : Nat) (change : Reporter → Reporter)
  /-- The host registers types. -/
  | register (bindings : List TypeBinding)

/-- What comes of a move. -/
inductive Reply where
  /-- A unit was to be opened; there may have been a fault. -/
  | opened (fault : Option Fault)
  /-- A stage, or driving, has this outcome; building a scope has none. -/
  | outcome (outcome : Option Outcome)
  | recorded (diagnostics : Option (List Diagnostic))
  | done
deriving DecidableEq

/-- A move with what came of it. -/
structure Event where
  move : Move
  reply : Reply

/-- The answer of a stage, if the event is one. -/
def Event.answer? (e : Event) : Option Answer :=
  match e.move, e.reply with
  | .call i (.stage stage), .outcome (some outcome) => some ⟨i, stage, outcome⟩
  | _, _ => none

/-- The answers of stages among some events. -/
def answersAmong (events : List Event) : List Answer := events.filterMap Event.answer?

namespace Build

/-- A build whose front end plays a recording, before anything has happened. -/
def fresh (r : Recording) (o : Options) : Build := ⟨{ frontEnd := r, options := o }, []⟩

/-- Lets the host make a move. There is no answer if the unit is not open. -/
def move (b : Build) : Move → Option (Build × Reply)
  | .openUnit id path text reporter =>
    match b.openUnit id path text reporter with
    | .ok b' => some (b', .opened none)
    | .error fault => some (b, .opened (some fault))
  | .call i callback => (b.call i callback).map fun (b', answer) => (b', .outcome answer)
  | .record i phase =>
    (b.onUnit i fun u s => u.recordDiagnostics s phase).map fun (b', diagnostics) =>
      (b', .recorded diagnostics)
  | .drive i phase =>
    (b.onUnit i fun u s => u.processTo s phase).map fun (b', outcome) =>
      (b', .outcome (some outcome))
  | .report i change =>
    b.onUnit i fun u s => ⟨{ u with reporter := change u.reporter }, s, .done⟩
  | .register bindings =>
    let environment := b.session.environment.registerAll bindings
    some ({ b with session := { b.session with environment } }, .done)

/-- **Runs.** The events lead from one build to another. -/
inductive Run : Build → List Event → Build → Prop
  | nil (b : Build) : Run b [] b
  | cons {b b₁ b₂ : Build} {m : Move} {reply : Reply} {events : List Event}
      (hmove : b.move m = some (b₁, reply)) (hrest : Run b₁ events b₂) :
      Run b (⟨m, reply⟩ :: events) b₂

variable {r : Recording} {o : Options} {b b' : Build} {events : List Event}

/-! ### Runs in parts -/

/-- A run can be cut into two at any event. -/
theorem run_append {events' : List Event} :
    Run b (events ++ events') b' ↔ ∃ b₁, Run b events b₁ ∧ Run b₁ events' b' := by
  constructor
  · intro h
    induction events generalizing b with
    | nil => exact ⟨b, .nil b, h⟩
    | cons e events ih =>
      cases h with
      | cons hmove hrest =>
        obtain ⟨b₁, hrun, hrun'⟩ := ih hrest
        exact ⟨b₁, .cons hmove hrun, hrun'⟩
  · rintro ⟨b₁, h, h'⟩
    induction h with
    | nil b => exact h'
    | cons hmove _ ih => exact .cons hmove (ih h')

theorem run_cons {e : Event} :
    Run b (e :: events) b' ↔ ∃ b₁, b.move e.move = some (b₁, e.reply) ∧ Run b₁ events b' := by
  constructor
  · intro h
    cases h with
    | cons hmove hrest => exact ⟨_, hmove, hrest⟩
  · rintro ⟨b₁, hmove, hrest⟩
    exact .cons hmove hrest

theorem run_singleton {e : Event} :
    Run b [e] b' ↔ b.move e.move = some (b', e.reply) := by
  rw [run_cons]
  constructor
  · rintro ⟨b₁, hmove, hnil⟩
    cases hnil
    exact hmove
  · intro hmove
    exact ⟨b', hmove, .nil b'⟩

/-- Events lead to one build only. -/
theorem Run.unique {b'' : Build} (h : Run b events b') (h' : Run b events b'') : b' = b'' := by
  induction h with
  | nil b =>
    cases h'
    rfl
  | cons hmove _ ih =>
    obtain ⟨b₁, hmove', hrest⟩ := run_cons.1 h'
    obtain ⟨rfl, -⟩ := Prod.mk.inj (Option.some.inj (hmove.symm.trans hmove'))
    exact ih hrest

/-! ### What a move comes to -/

/-- **What a move comes to.** There is one case for each kind of move; opening a unit has two. -/
inductive Moved (b : Build) : Event → Build → Prop
  | opened {id : Source.ModuleId} {path text : String} {reporter : Reporter} {b' : Build}
      (hopen : b.openUnit id path text reporter = .ok b') :
      Moved b ⟨.openUnit id path text reporter, .opened none⟩ b'
  /-- The unit cannot be opened, and nothing changes. -/
  | failed (id : Source.ModuleId) (path text : String) (reporter : Reporter) (fault : Fault) :
      Moved b ⟨.openUnit id path text reporter, .opened (some fault)⟩ b
  | ran {i : Nat} {u : SourceUnit} (stage : Stage) (hu : b.units[i]? = some u) :
      Moved b ⟨.call i (.stage stage), .outcome (some (u.run b.session stage).result)⟩
        ⟨(u.run b.session stage).session, b.units.set i (u.run b.session stage).unit⟩
  | bound {i : Nat} {u : SourceUnit} (hu : b.units[i]? = some u) :
      Moved b ⟨.call i .buildScope, .outcome none⟩
        ⟨(u.buildScope b.session).session, b.units.set i (u.buildScope b.session).unit⟩
  | recorded {i : Nat} {u : SourceUnit} (phase : Phase) (hu : b.units[i]? = some u) :
      Moved b ⟨.record i phase, .recorded (u.recordDiagnostics b.session phase).result⟩
        ⟨(u.recordDiagnostics b.session phase).session,
          b.units.set i (u.recordDiagnostics b.session phase).unit⟩
  | driven {i : Nat} {u : SourceUnit} (phase : Phase) (hu : b.units[i]? = some u) :
      Moved b ⟨.drive i phase, .outcome (some (u.processTo b.session phase).result)⟩
        ⟨(u.processTo b.session phase).session,
          b.units.set i (u.processTo b.session phase).unit⟩
  | reported {i : Nat} {u : SourceUnit} (change : Reporter → Reporter)
      (hu : b.units[i]? = some u) :
      Moved b ⟨.report i change, .done⟩
        { b with units := b.units.set i { u with reporter := change u.reporter } }
  | registered (bindings : List TypeBinding) :
      Moved b ⟨.register bindings, .done⟩
        { b with session := { b.session with
          environment := b.session.environment.registerAll bindings } }

theorem moved_of_move {m : Move} {reply : Reply} (h : b.move m = some (b', reply)) :
    Moved b ⟨m, reply⟩ b' := by
  cases m with
  | openUnit id path text reporter =>
    rw [move] at h
    cases hopen : b.openUnit id path text reporter with
    | ok b₁ =>
      rw [hopen] at h
      obtain ⟨rfl, rfl⟩ := Prod.mk.inj (Option.some.inj h)
      exact .opened hopen
    | error fault =>
      rw [hopen] at h
      obtain ⟨rfl, rfl⟩ := Prod.mk.inj (Option.some.inj h)
      exact .failed id path text reporter fault
  | call i callback =>
    rw [move] at h
    obtain ⟨⟨b₁, answer⟩, hcall, heq⟩ := Option.map_eq_some_iff.1 h
    obtain ⟨rfl, rfl⟩ := Prod.mk.inj heq
    cases callback with
    | stage stage =>
      rw [call] at hcall
      obtain ⟨⟨b₂, outcome⟩, hrun, heq⟩ := Option.map_eq_some_iff.1 hcall
      obtain ⟨rfl, rfl⟩ := Prod.mk.inj heq
      obtain ⟨u, hu, rfl, rfl⟩ := runStage_cases hrun
      exact .ran stage hu
    | buildScope =>
      rw [call] at hcall
      obtain ⟨b₂, hscope, heq⟩ := Option.map_eq_some_iff.1 hcall
      obtain ⟨rfl, rfl⟩ := Prod.mk.inj heq
      obtain ⟨u, hu, rfl⟩ := buildScope_cases hscope
      exact .bound hu
  | record i phase =>
    rw [move] at h
    obtain ⟨⟨b₁, diagnostics⟩, hrecord, heq⟩ := Option.map_eq_some_iff.1 h
    obtain ⟨rfl, rfl⟩ := Prod.mk.inj heq
    obtain ⟨u, hu, rfl, rfl⟩ := onUnit_cases hrecord
    exact .recorded phase hu
  | drive i phase =>
    rw [move] at h
    obtain ⟨⟨b₁, outcome⟩, hdrive, heq⟩ := Option.map_eq_some_iff.1 h
    obtain ⟨rfl, rfl⟩ := Prod.mk.inj heq
    obtain ⟨u, hu, rfl, rfl⟩ := onUnit_cases hdrive
    exact .driven phase hu
  | report i change =>
    rw [move] at h
    obtain ⟨u, hu, rfl, rfl⟩ := onUnit_cases h
    exact .reported change hu
  | register bindings =>
    obtain ⟨rfl, rfl⟩ := Prod.mk.inj (Option.some.inj h)
    exact .registered bindings

/-! ### The history of a run -/

theorem onUnit_eq {α : Type} {i : Nat} {u : SourceUnit} (hu : b.units[i]? = some u)
    (f : SourceUnit → Session → Step α) :
    b.onUnit i f = some (⟨(f u b.session).session, b.units.set i (f u b.session).unit⟩,
      (f u b.session).result) := by
  rw [onUnit, hu]
  rfl

theorem buildScope_eq {i : Nat} {u : SourceUnit} (hu : b.units[i]? = some u) :
    b.buildScope i = some ⟨(u.buildScope b.session).session,
      b.units.set i (u.buildScope b.session).unit⟩ := by
  rw [buildScope, onUnit_eq hu]
  rfl

/-- A move takes a history one step further. -/
theorem History.move {answers : List Answer} (h : History r o answers b) {m : Move} {reply : Reply}
    (hmove : b.move m = some (b', reply)) :
    History r o (answers ++ (Event.answer? ⟨m, reply⟩).toList) b' := by
  cases moved_of_move hmove with
  | ran stage hu => exact h.ran (onUnit_eq hu _)
  -- the others give no answer
  | opened hopen => exact (List.append_nil answers).symm ▸ h.opened hopen
  | failed => exact (List.append_nil answers).symm ▸ h
  | bound hu => exact (List.append_nil answers).symm ▸ h.bound (buildScope_eq hu)
  | recorded phase hu => exact (List.append_nil answers).symm ▸ h.recorded (onUnit_eq hu _)
  | driven phase hu => exact (List.append_nil answers).symm ▸ h.driven (onUnit_eq hu _)
  | reported change hu => exact (List.append_nil answers).symm ▸ h.reported hu _
  | registered bindings => exact (List.append_nil answers).symm ▸ h.registered _

theorem answersAmong_cons (e : Event) (events : List Event) :
    answersAmong (e :: events) = e.answer?.toList ++ answersAmong events := by
  rw [answersAmong, List.filterMap_cons]
  cases e.answer? <;> rfl

theorem answersAmong_append (events events' : List Event) :
    answersAmong (events ++ events') = answersAmong events ++ answersAmong events' :=
  List.filterMap_append

/-- A run takes a history further. -/
theorem History.run {answers : List Answer} (h : History r o answers b) (hrun : Run b events b') :
    History r o (answers ++ answersAmong events) b' := by
  induction hrun generalizing answers with
  | nil b => exact (List.append_nil answers).symm ▸ h
  | cons hmove _ ih =>
    rw [answersAmong_cons, ← List.append_assoc]
    exact ih (h.move hmove)

/-- **A run from a fresh build is a history.** -/
theorem Run.history (h : Run (fresh r o) events b) : History r o (answersAmong events) b := by
  have hfresh : History r o [] (fresh r o) := .fresh
  exact hfresh.run h

end Build

end HostBridge
