import HostBridge.Proofs.Session.Events
import HostBridge.Proofs.Session.Tree

/-!
# Repeated callbacks

The host may call a unit back more often than it has to. This file shows which of the calls are
*invisible*: whatever comes after them, a run with the call and the run without it go through the
same builds and give the same replies, `Build.Invisible`. There are two kinds.

* A stage that has answered something other than that it was told to stop. The unit has noted the
  first such answer, `Build.History.completed_eq`, and running the stage again only repeats it.
* Building the scope, if it has been built before and populating has not succeeded for the first
  time since. Scopes are not guarded by what has been noted: each call gives the types their
  identities anew. It is harmless because the identities are determined by the names, and because an
  entry of the environment stays once it is there.

The invariant of the second kind is `Build.Settled`: the types of the unit have the identities that
the scope gives them, and the names of these are taken. The only thing that destroys it is a tree
that has just been built, `Build.Settled.move`.

`Build.repeated_calls_invisible` puts the two together.
-/

namespace HostBridge

/-! ### The identities of a bound tree -/

namespace TypeDeclaration

/-- Identities do not depend on those that were there before. -/
theorem bindAll_bindAll (package : List String) (outer : Option String)
    (ts : List TypeDeclaration) :
    bindAll package outer (bindAll package outer ts) = bindAll package outer ts := by
  calc bindAll package outer (bindAll package outer ts)
      = bindAll package outer (unbindAll (bindAll package outer ts)) :=
        (bindAll_unbindAll package outer _).symm
    _ = bindAll package outer (unbindAll ts) := by rw [unbindAll_bindAll]
    _ = bindAll package outer ts := bindAll_unbindAll package outer ts

end TypeDeclaration

namespace DeclarationTree

/-- Every type of the tree has the identity that the scope gives it. -/
def IsBound (t : DeclarationTree) : Prop := t.bind = t

theorem isBound_bind (t : DeclarationTree) : t.bind.IsBound := by
  unfold IsBound
  have hsegments : t.bind.packageSegments = t.packageSegments := rfl
  rw [bind, hsegments]
  exact congrArg (fun types => { t with types })
    (TypeDeclaration.bindAll_bindAll t.packageSegments none t.types)

/-- Locating comments does not touch identities. -/
theorem IsBound.withComments {t : DeclarationTree} (h : t.IsBound) (comments : List CommentRange) :
    ({ t with comments } : DeclarationTree).IsBound := by
  have htypes : t.bind.types = t.types := congrArg types h
  exact congrArg (fun types => ({ t with types, comments } : DeclarationTree)) htypes

end DeclarationTree

namespace Environment

variable {e : Environment} {bs : List TypeBinding}

/-- Once a name is taken it stays taken. -/
theorem isTaken_registerAll_of_isTaken {name : String} (h : e.isTaken name)
    (bs : List TypeBinding) : (e.registerAll bs).isTaken name := by
  obtain ⟨b, hb⟩ := Option.isSome_iff_exists.1 h
  rw [isTaken, lookup?_registerAll_of_some hb]
  rfl

/-- Types whose names are taken are not registered again. -/
theorem registerAll_of_isTaken (h : ∀ b ∈ bs, e.isTaken b.qualifiedName) :
    e.registerAll bs = e := by
  induction bs with
  | nil => rfl
  | cons b bs ih =>
    have hfirst : e.register b = e := by
      rw [register, if_pos (h b List.mem_cons_self)]
    have hrest : e.registerAll bs = e := ih fun c hc => h c (List.mem_cons_of_mem b hc)
    rw [registerAll, List.foldl_cons, hfirst]
    exact hrest

end Environment

/-! ### The first outcome of a stage -/

/-- The outcome of the first run of a stage that was not told to stop. -/
def firstOutcome? (answers : List Answer) (i : Nat) (stage : Stage) : Option Outcome :=
  (answers.find? fun a => a.unit = i ∧ a.stage = stage ∧ a.outcome ≠ .cancelled).map (·.outcome)

variable {answers : List Answer} {i : Nat} {stage : Stage}

/-- The first outcome has been answered, and was not a request to stop. -/
theorem firstOutcome?_eq_some {outcome : Outcome}
    (h : firstOutcome? answers i stage = some outcome) :
    ⟨i, stage, outcome⟩ ∈ answers ∧ outcome ≠ .cancelled := by
  obtain ⟨a, ha, rfl⟩ := Option.map_eq_some_iff.1 h
  have hmatch : a.unit = i ∧ a.stage = stage ∧ a.outcome ≠ .cancelled := by
    simpa using List.find?_some ha
  obtain ⟨rfl, rfl, hne⟩ := hmatch
  exact ⟨List.mem_of_find?_eq_some ha, hne⟩

/-- Among answers with such an outcome there is a first one. -/
theorem firstOutcome?_ne_none {outcome : Outcome} (h : ⟨i, stage, outcome⟩ ∈ answers)
    (hne : outcome ≠ .cancelled) : firstOutcome? answers i stage ≠ none := by
  rw [firstOutcome?, ne_eq, Option.map_eq_none_iff, List.find?_eq_none]
  intro hnone
  exact hnone _ h (decide_eq_true ⟨rfl, rfl, hne⟩)

theorem firstOutcome?_append_singleton (answers : List Answer) (i : Nat) (stage : Stage)
    (a : Answer) :
    firstOutcome? (answers ++ [a]) i stage = (firstOutcome? answers i stage).or
      (if a.unit = i ∧ a.stage = stage ∧ a.outcome ≠ .cancelled then some a.outcome else none) := by
  rw [firstOutcome?, List.find?_append, Option.map_or, firstOutcome?, List.find?_singleton]
  by_cases ha : a.unit = i ∧ a.stage = stage ∧ a.outcome ≠ .cancelled
  · rw [if_pos ha, if_pos (decide_eq_true ha), Option.map_some]
  · rw [if_neg ha, if_neg (by simpa using ha), Option.map_none]

namespace Build

variable {r : Recording} {o : Options} {b b' : Build} {events : List Event}

/-- **What a unit has noted** for a stage is the first outcome that was not a request to stop. -/
theorem History.completed_eq (h : History r o answers b) {u : SourceUnit}
    (hu : b.units[i]? = some u) (stage : Stage) :
    u.completed stage = firstOutcome? answers i stage := by
  refine h.unit_induction (motive := fun answers i u =>
    ∀ stage, u.completed stage = firstOutcome? answers i stage) ?_ ?_ ?_ ?_ ?_ hu stage
  · -- a new unit has not answered yet
    intro answers i id file reporter _ hnew stage
    have hnone : answers.find? (fun a => a.unit = i ∧ a.stage = stage ∧ a.outcome ≠ .cancelled) =
        none := by
      rw [List.find?_eq_none]
      intro a ha hmatch
      exact hnew a ha (of_decide_eq_true hmatch).1
    rw [firstOutcome?, hnone]
    rfl
  · intro answers i u s ran _ _ ih stage
    rw [firstOutcome?_append_singleton, ← ih stage]
    cases hran : u.completed ran with
    | some outcome =>
      -- the stage repeats what it has noted
      rw [SourceUnit.run_of_completed hran]
      by_cases hstage : ran = stage
      · rw [← hstage, hran, Option.some_or]
      · rw [if_neg fun hmatch => hstage hmatch.2.1, Option.or_none]
    | none =>
      obtain ⟨-, -, hkept⟩ := u.perform_kept s ran
      rw [SourceUnit.run_of_not_completed hran, Step.completed_noted, Step.result_noted, hkept]
      by_cases hmatch : stage = ran ∧ (u.perform s ran).result ≠ .cancelled
      · rw [if_pos hmatch, if_pos ⟨rfl, hmatch.1.symm, hmatch.2⟩, hmatch.1, hran, Option.none_or]
      · rw [if_neg hmatch, if_neg fun hmatch' => hmatch ⟨hmatch'.2.1.symm, hmatch'.2.2⟩,
          Option.or_none]
  · -- the answers of other units do not count
    intro answers i u a ha ih stage
    rw [firstOutcome?_append_singleton, if_neg fun hmatch => ha hmatch.1, Option.or_none]
    exact ih stage
  · intro answers i u ih stage
    exact ih stage
  · intro answers i u reporter ih stage
    exact ih stage

end Build

/-! ### Settled units -/

/-- **Settled units.** Building the scope of the unit has nothing left to do in this environment:
the types have their identities, and the names of these are taken. -/
structure SourceUnit.Settled (e : Environment) (u : SourceUnit) : Prop where
  bound : u.tree.IsBound
  taken : ∀ c ∈ u.tree.bindings, e.isTaken c.qualifiedName

namespace SourceUnit

variable {e : Environment} {u : SourceUnit} {s : Session}

/-- The environment may grow. -/
theorem Settled.mono {e' : Environment} (h : Settled e u)
    (hgrown : ∀ name, e.isTaken name → e'.isTaken name) : Settled e' u where
  bound := h.bound
  taken c hc := hgrown _ (h.taken c hc)

/-- Only the tree counts. -/
theorem Settled.of_tree {w : SourceUnit} (h : Settled e u) (htree : w.tree = u.tree) :
    Settled e w where
  bound := htree ▸ h.bound
  taken := htree ▸ h.taken

/-- Building the scope settles the unit. -/
theorem settled_buildScope (u : SourceUnit) (s : Session) :
    Settled (u.buildScope s).session.environment (u.buildScope s).unit where
  bound := u.tree.isBound_bind
  taken _ hc := Environment.isTaken_registerAll hc

/-- Building the scope of a settled unit changes nothing. -/
theorem Settled.buildScope_eq (h : Settled s.environment u) : u.buildScope s = ⟨u, s, ()⟩ := by
  have htree : u.tree.bind = u.tree := h.bound
  rw [buildScope, htree, Environment.registerAll_of_isTaken h.taken]

/-- A stage keeps the unit settled, unless populating has just succeeded for the first time. -/
theorem Settled.run (h : Settled e u) (s : Session) (stage : Stage)
    (hpopulated : stage = .populate → (u.run s stage).result = .success →
      u.completed .populate = some .success) :
    Settled e (u.run s stage).unit := by
  cases hcompleted : u.completed stage with
  | some outcome =>
    rw [run_of_completed hcompleted]
    exact h
  | none =>
    rw [run_of_not_completed hcompleted, Step.result_noted] at hpopulated
    rw [run_of_not_completed hcompleted]
    cases u.treeStep_perform s stage with
    | kept htree => exact h.of_tree (by rw [Step.tree_noted, htree])
    | built m hstage hresult =>
      -- populating would have succeeded before
      have hbefore := hpopulated hstage hresult
      rw [← hstage, hcompleted] at hbefore
      exact absurd hbefore nofun
    | located m _ _ htree =>
      refine ⟨?_, ?_⟩
      · rw [Step.tree_noted, htree]
        exact h.bound.withComments _
      · rw [Step.tree_noted, htree]
        exact h.taken

end SourceUnit

namespace Build

variable {r : Recording} {o : Options} {b b' : Build} {events : List Event}

/-- The unit of that number is settled. -/
def Settled (b : Build) (i : Nat) : Prop :=
  ∃ u, b.units[i]? = some u ∧ u.Settled b.session.environment

/-- Building the scope of a unit settles it. -/
theorem Settled.of_buildScope {reply : Reply}
    (h : b.move (.call i .buildScope) = some (b', reply)) : b'.Settled i := by
  cases moved_of_move h with
  | @bound _ u hu =>
    refine ⟨(u.buildScope b.session).unit, ?_, u.settled_buildScope b.session⟩
    exact List.getElem?_set_self (List.getElem?_eq_some_iff.1 hu).1

/-- Building the scope of a settled unit changes nothing. -/
theorem Settled.buildScope_eq (h : b.Settled i) : b.buildScope i = some b := by
  obtain ⟨u, hu, hsettled⟩ := h
  have hset : b.units.set i u = b.units := by
    obtain ⟨hlt, rfl⟩ := List.getElem?_eq_some_iff.1 hu
    exact List.set_getElem_self hlt
  rw [Build.buildScope_eq hu, hsettled.buildScope_eq, hset]

/-- A step of some unit keeps a unit settled if it does so as its own step, and only adds to the
environment. -/
theorem Settled.step {j : Nat} {w w' : SourceUnit} {s : Session} (h : b.Settled i)
    (hw : b.units[j]? = some w)
    (hgrown : ∀ name, b.session.environment.isTaken name → s.environment.isTaken name)
    (hown : j = i → w.Settled b.session.environment → w'.Settled s.environment) :
    Settled ⟨s, b.units.set j w'⟩ i := by
  obtain ⟨u, hu, hsettled⟩ := h
  by_cases hij : j = i
  · subst hij
    obtain rfl := Option.some.inj (hw.symm.trans hu)
    exact ⟨w', List.getElem?_set_self (List.getElem?_eq_some_iff.1 hu).1, hown rfl hsettled⟩
  · exact ⟨u, (List.getElem?_set_ne hij).trans hu, hsettled.mono hgrown⟩

/-- **A move keeps a unit settled**, unless it is the first success in populating it. -/
theorem Settled.move (h : b.Settled i) {m : Move} {reply : Reply}
    (hmove : b.move m = some (b', reply))
    (hpopulated : Event.answer? ⟨m, reply⟩ = some ⟨i, .populate, .success⟩ →
      ∀ u, b.units[i]? = some u → u.completed .populate = some .success) : b'.Settled i := by
  cases moved_of_move hmove with
  | opened hopen =>
    obtain ⟨-, files, file, rfl⟩ := openUnit_cases hopen
    -- the new unit comes last
    obtain ⟨u, hu, hsettled⟩ := h
    have hlt := (List.getElem?_eq_some_iff.1 hu).1
    exact ⟨u, (List.getElem?_append_left hlt).trans hu, hsettled⟩
  | failed => exact h
  | @ran j w stage hw =>
    obtain ⟨frontEnd, hsession⟩ := w.session_run b.session stage
    rw [hsession]
    refine h.step hw (fun _ htaken => htaken) fun hij hsettled =>
      hsettled.run b.session stage fun hstage hresult => ?_
    refine hpopulated ?_ w (hij ▸ hw)
    rw [Event.answer?, hstage, hij, ← hstage, hresult]
  | @bound j w hw =>
    refine h.step hw (fun name htaken => ?_) fun _ _ => w.settled_buildScope b.session
    exact Environment.isTaken_registerAll_of_isTaken htaken _
  | @recorded j w phase hw =>
    obtain ⟨⟨reporter, hunit⟩, ⟨frontEnd, hsession⟩, -⟩ :=
      recordDiagnostics_frame w b.session phase
    rw [hunit, hsession]
    exact h.step hw (fun _ htaken => htaken) fun _ hsettled => hsettled.of_tree rfl
  | @driven j w phase hw =>
    obtain ⟨hunit, hsession⟩ := (w.driven_processTo b.session phase).frame
    rw [hunit, hsession]
    exact h.step hw (fun _ htaken => htaken) fun _ hsettled => hsettled.of_tree rfl
  | reported change hw =>
    exact h.step hw (fun _ htaken => htaken) fun _ hsettled => hsettled.of_tree rfl
  | registered bindings =>
    obtain ⟨u, hu, hsettled⟩ := h
    exact ⟨u, hu, hsettled.mono fun _ htaken =>
      Environment.isTaken_registerAll_of_isTaken htaken _⟩

/-- **A run keeps a unit settled**, if populating it does not succeed for the first time on the
way. -/
theorem Settled.run (h : b.Settled i) (hhistory : History r o answers b) (hrun : Run b events b')
    (hpopulated : ⟨i, .populate, .success⟩ ∈ answersAmong events →
      ⟨i, .populate, .success⟩ ∈ answers) : b'.Settled i := by
  induction hrun generalizing answers with
  | nil b => exact h
  | @cons b b₁ b₂ m reply events hmove hrest ih =>
    rw [answersAmong_cons] at hpopulated
    refine ih (h.move hmove fun hanswer u hu => ?_) (hhistory.move hmove) fun hmem => ?_
    · -- an earlier success has been noted
      refine (hhistory.holds hu).populated.2 (hpopulated ?_)
      rw [hanswer]
      exact List.mem_append_left _ (Option.mem_toList.2 rfl)
    · exact List.mem_append_left _ (hpopulated (List.mem_append_right _ hmem))

/-! ### Invisible calls -/

/-- **Invisible events.** After the events `before`, it makes no difference to what comes later
whether the event `e` comes in between: the same events may follow, with the same replies, and they
lead to the same builds. -/
def Invisible (r : Recording) (o : Options) (before : List Event) (e : Event) : Prop :=
  ∀ later b', Run (fresh r o) (before ++ e :: later) b' ↔ Run (fresh r o) (before ++ later) b'

/-- An event that leaves the build as it is is invisible. -/
theorem invisible_of_move {e : Event} (h : Run (fresh r o) events b)
    (hmove : b.move e.move = some (b, e.reply)) : Invisible r o events e := by
  intro later b'
  constructor
  · intro hrun
    obtain ⟨b₁, hbefore, hrest⟩ := run_append.1 hrun
    obtain rfl := hbefore.unique h
    obtain ⟨b₂, hmove', hlater⟩ := run_cons.1 hrest
    obtain ⟨rfl, -⟩ := Prod.mk.inj (Option.some.inj (hmove.symm.trans hmove'))
    exact run_append.2 ⟨_, h, hlater⟩
  · intro hrun
    obtain ⟨b₁, hbefore, hlater⟩ := run_append.1 hrun
    obtain rfl := hbefore.unique h
    exact run_append.2 ⟨_, h, run_cons.2 ⟨_, hmove, hlater⟩⟩

/-- A stage that has answered before repeats its first outcome and changes nothing. -/
theorem call_of_firstOutcome? (h : History r o answers b) {outcome : Outcome}
    (hfirst : firstOutcome? answers i stage = some outcome) :
    b.call i (.stage stage) = some (b, some outcome) := by
  -- only open units have answered
  have hlt : i < b.units.length := h.framed.answered _ (firstOutcome?_eq_some hfirst).1
  have hu : b.units[i]? = some b.units[i] := List.getElem?_eq_getElem hlt
  have hcompleted := (h.completed_eq hu stage).trans hfirst
  rw [call, runStage, onUnit_eq hu, Option.map_some]
  dsimp only
  rw [SourceUnit.run_of_completed hcompleted, List.set_getElem_self hlt]

/-- **Repeated callbacks are invisible.** Take any run of a build, with any faults and any
reporters, and an event at its end.

If the event is a call of a stage that has answered something other than a request to stop, then it
replies with the first such answer and is invisible. And if it builds the scope of a unit, and this
has been done before, and populating the unit has not succeeded for the first time since, then it is
invisible as well. -/
theorem repeated_calls_invisible {e : Event} (h : Run (fresh r o) (events ++ [e]) b) (i : Nat) :
    (∀ stage outcome, e.move = .call i (.stage stage) →
      firstOutcome? (answersAmong events) i stage = some outcome →
        e.reply = .outcome (some outcome) ∧ Invisible r o events e) ∧
    (∀ before scope after, e.move = .call i .buildScope → events = before ++ scope :: after →
      scope.move = .call i .buildScope →
      (⟨i, .populate, .success⟩ ∈ answersAmong events →
        ⟨i, .populate, .success⟩ ∈ answersAmong before) →
        Invisible r o events e) := by
  obtain ⟨b₁, hevents, hlast⟩ := run_append.1 h
  have hmove := run_singleton.1 hlast
  constructor
  · intro stage outcome hcall hfirst
    -- the call has only one way to go
    have hrepeated : b₁.move e.move = some (b₁, .outcome (some outcome)) := by
      rw [hcall, Build.move, call_of_firstOutcome? hevents.history hfirst]
      rfl
    obtain ⟨-, hreply⟩ := Prod.mk.inj (Option.some.inj (hmove.symm.trans hrepeated))
    exact ⟨hreply, invisible_of_move hevents (hreply ▸ hrepeated)⟩
  · intro before scope after hcall hsplit hscope hpopulated
    subst hsplit
    -- the unit has been settled by the earlier call, and has stayed so
    obtain ⟨b₂, hbefore, hrest⟩ := run_append.1 hevents
    obtain ⟨b₃, hfirst, hafter⟩ := run_cons.1 hrest
    have hsettled₃ : b₃.Settled i := Settled.of_buildScope (hscope ▸ hfirst)
    have hsettled : b₁.Settled i := by
      refine hsettled₃.run (hbefore.history.move hfirst) hafter fun hmem => ?_
      refine List.mem_append_left _ (hpopulated ?_)
      rw [answersAmong_append, answersAmong_cons]
      exact List.mem_append_right _ (List.mem_append_right _ hmem)
    have hrepeated : b₁.move e.move = some (b₁, .outcome none) := by
      rw [hcall, Build.move, call, hsettled.buildScope_eq]
      rfl
    obtain ⟨-, hreply⟩ := Prod.mk.inj (Option.some.inj (hmove.symm.trans hrepeated))
    exact invisible_of_move hevents (hreply ▸ hrepeated)

/-- A run in which populating is told to stop and then tried again, and the scope is built. -/
def boundAfterStop : List Event :=
  [⟨.openUnit ⟨0⟩ "Outer.groovy" "" .accepting, .opened none⟩,
    ⟨.call 0 (.stage .populate), .outcome (some .cancelled)⟩,
    ⟨.call 0 (.stage .populate), .outcome (some .success)⟩,
    ⟨.call 0 .buildScope, .outcome none⟩]

/-- After that run both callbacks may be repeated. -/
theorem repeated_calls_invisible_boundAfterStop :
    (∃ b, Run (fresh stoppedOnce {}) boundAfterStop b ∧
      b.units.map (·.tree.bindings.length) = [2]) ∧
    Invisible stoppedOnce {} boundAfterStop
      ⟨.call 0 (.stage .populate), .outcome (some .success)⟩ ∧
    Invisible stoppedOnce {} boundAfterStop ⟨.call 0 .buildScope, .outcome none⟩ := by
  have hpopulated : Run (fresh stoppedOnce {})
      (boundAfterStop ++ [⟨.call 0 (.stage .populate), .outcome (some .success)⟩]) _ :=
    .cons rfl (.cons rfl (.cons rfl (.cons rfl (.cons rfl (.nil _)))))
  have hbound : Run (fresh stoppedOnce {})
      (boundAfterStop ++ [⟨.call 0 .buildScope, .outcome none⟩]) _ :=
    .cons rfl (.cons rfl (.cons rfl (.cons rfl (.cons rfl (.nil _)))))
  refine ⟨⟨_, .cons rfl (.cons rfl (.cons rfl (.cons rfl (.nil _)))), by decide +kernel⟩, ?_, ?_⟩
  · exact ((repeated_calls_invisible hpopulated 0).1 .populate .success rfl (by decide)).2
  · exact (repeated_calls_invisible hbound 0).2 (boundAfterStop.take 3) _ [] rfl rfl rfl
      fun _ => by decide

end Build

end HostBridge
