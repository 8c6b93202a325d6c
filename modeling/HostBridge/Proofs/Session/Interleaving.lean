import HostBridge.Proofs.Binding.Registration
import HostBridge.Proofs.Session.Clean
import HostBridge.Proofs.Session.History

/-!
# Interleaving the callbacks of units

The host may interleave the callbacks of different units as it likes. This file shows that with a
clean front end the order does not matter, as long as each unit gets its own callbacks in the same
order: `Build.Tracks.sameEnd`.

The reason is that each unit goes its own way. `SourceUnit.solo` is what a unit does if it is called
back on its own, in a session that stays as it was in the beginning. A run of a build follows all
the units on their ways, `Build.Tracks`: at any time each unit is where its own callbacks have led
it, the front end has been driven to the latest of the phases, and the environment knows the
identities that the units have registered, whichever came first.
-/

namespace HostBridge

/-! ### Schedules -/

/-- The callbacks of one unit in a schedule. -/
def callsOf (i : Nat) (calls : List (Nat × Callback)) : List Callback :=
  (calls.filter fun call => call.1 = i).map (·.2)

theorem callsOf_append (i : Nat) (calls calls' : List (Nat × Callback)) :
    callsOf i (calls ++ calls') = callsOf i calls ++ callsOf i calls' := by
  rw [callsOf, List.filter_append, List.map_append, callsOf, callsOf]

/-- Callbacks that all go to one unit. -/
theorem callsOf_map (i j : Nat) (callbacks : List Callback) :
    callsOf j (callbacks.map fun callback => (i, callback)) = if i = j then callbacks else [] := by
  rw [callsOf, List.filter_map, List.map_map]
  by_cases hij : i = j <;> simp [hij, Function.comp_def]

theorem callsOf_singleton (i j : Nat) (callback : Callback) :
    callsOf j [(i, callback)] = if i = j then [callback] else [] :=
  callsOf_map i j [callback]

/-- Schedules with the same callbacks for each unit are permutations of each other. -/
theorem perm_of_callsOf {σ τ : List (Nat × Callback)} (h : ∀ i, callsOf i σ = callsOf i τ) :
    σ.Perm τ := by
  -- how often a callback comes is told by the callbacks of its unit
  have hcount : ∀ (call : Nat × Callback) calls, List.count call calls =
      List.count call.2 (callsOf call.1 calls) := by
    rintro ⟨i, callback⟩ calls
    induction calls with
    | nil => rfl
    | cons call calls ih =>
      obtain ⟨j, callback'⟩ := call
      rw [← List.singleton_append, callsOf_append, List.count_append, List.count_append, ih]
      congr 1
      rw [callsOf_singleton, List.count_singleton]
      by_cases hij : j = i <;> simp [hij, List.count_singleton]
  rw [List.perm_iff_count]
  intro call
  rw [hcount, hcount, h]

/-- The phase that has been reached after some callbacks. -/
def driveAll (calls : List (Nat × Callback)) (reached : Phase) : Phase :=
  calls.foldl (fun reached call => call.2.drive reached) reached

/-- The order of callbacks does not matter for the phase that they reach. -/
theorem driveAll_perm {σ τ : List (Nat × Callback)} (h : σ.Perm τ) (reached : Phase) :
    driveAll σ reached = driveAll τ reached := by
  refine h.foldl_eq' (fun call _ call' _ reached => ?_) reached
  -- the later of three phases is the same in whatever order they come
  cases call.2 <;> cases call'.2 <;> simp only [Callback.drive, Phase.later_assoc]
  rw [Phase.later_comm (Stage.target _)]

/-! ### One unit on its own -/

/-- What a callback has answered, if it is a stage. -/
def Callback.answers : Callback → Option Outcome → List (Stage × Outcome)
  | .stage answering, some outcome => [(answering, outcome)]
  | _, _ => []

/-- What has become of a unit that has been called back on its own. -/
structure Solo where
  unit : SourceUnit
  answers : List (Stage × Outcome) := []
  /-- The identities that the unit has registered. -/
  bindings : List TypeBinding := []

def Solo.call (s : Session) (x : Solo) (callback : Callback) : Solo where
  unit := (x.unit.called s callback).unit
  answers := x.answers ++ callback.answers (x.unit.called s callback).result
  bindings := x.bindings ++ x.unit.registers callback

/-- **A unit on its own**, in a session that stays as it is. -/
def SourceUnit.solo (u : SourceUnit) (s : Session) (callbacks : List Callback) : Solo :=
  callbacks.foldl (Solo.call s) { unit := u }

theorem SourceUnit.solo_concat (u : SourceUnit) (s : Session) (callbacks : List Callback)
    (callback : Callback) :
    u.solo s (callbacks ++ [callback]) = (u.solo s callbacks).call s callback :=
  List.foldl_concat ..

/-- A callback takes its unit one step further, and no other. -/
theorem SourceUnit.solo_callsOf_concat (u : SourceUnit) (s : Session) (σ : List (Nat × Callback))
    (i j : Nat) (callback : Callback) :
    u.solo s (callsOf j (σ ++ [(i, callback)])) =
      if i = j then (u.solo s (callsOf j σ)).call s callback else u.solo s (callsOf j σ) := by
  rw [callsOf_append, callsOf_singleton]
  split
  · rw [solo_concat]
  · rw [List.append_nil]

/-! ### All units -/

/-- The answers of one unit. -/
def answersOf (i : Nat) (answers : List Answer) : List (Stage × Outcome) :=
  (answers.filter fun a => a.unit = i).map fun a => (a.stage, a.outcome)

theorem answersOf_append (i : Nat) (answers answers' : List Answer) :
    answersOf i (answers ++ answers') = answersOf i answers ++ answersOf i answers' := by
  rw [answersOf, List.filter_append, List.map_append, answersOf, answersOf]

/-- Answers that are all given by one unit. -/
theorem answersOf_map (i j : Nat) (answers : List (Stage × Outcome)) :
    answersOf j (answers.map fun (stage, outcome) => (⟨i, stage, outcome⟩ : Answer)) =
      if i = j then answers else [] := by
  rw [answersOf, List.filter_map, List.map_map]
  by_cases hij : i = j <;> simp [hij, Function.comp_def]

namespace Build

open SourceUnit (TreeOf)

/-- Calls units back one after the other, if they are open. -/
def callAll (b : Build) : List (Nat × Callback) → Option (Build × List Answer)
  | [] => some (b, [])
  | (i, callback) :: calls =>
    match b.call i callback with
    | none => none
    | some (b', outcome) =>
      (b'.callAll calls).map fun (b'', answers) =>
        (b'', (callback.answers outcome).map (fun (stage, outcome) => ⟨i, stage, outcome⟩) ++
          answers)

variable {r : Recording} {o : Options} {b₀ b b' : Build} {σ τ : List (Nat × Callback)}

/-- **Opened builds**, of which no unit has been called back. -/
inductive Opened (r : Recording) (o : Options) : Build → Prop
  | fresh : Opened r o ⟨{ frontEnd := r, options := o }, []⟩
  | opened {b b' : Build} (h : Opened r o b) {id : Source.ModuleId} {path text : String}
      {reporter : Reporter} (hopen : b.openUnit id path text reporter = .ok b') : Opened r o b'

/-- **Following the units.** The build `b` is what the callbacks `calls` have made of `b₀`. -/
structure Tracks (r : Recording) (b₀ : Build) (calls : List (Nat × Callback)) (b : Build) :
    Prop where
  length : b.units.length = b₀.units.length
  unit : ∀ (i : Nat) (u : SourceUnit), b₀.units[i]? = some u →
    b.units[i]? = some (u.solo b₀.session (callsOf i calls)).unit
  frontEnd : b.session.frontEnd = { r with reached := driveAll calls r.reached }
  options : b.session.options = b₀.session.options
  files : b.session.files = b₀.session.files
  behind : ∀ u ∈ b.units, u.IsBehind b.session.frontEnd.reached
  trees : ∀ u ∈ b.units, TreeOf r b₀.session.options u
  environment : b.session.environment.Knows fun c => ∃ (i : Nat) (u : SourceUnit),
    b₀.units[i]? = some u ∧ c ∈ (u.solo b₀.session (callsOf i calls)).bindings

/-- An opened build is where all its units start. -/
theorem Opened.tracks (h : Opened r o b₀) :
    b₀.session.frontEnd = r ∧ b₀.session.options = o ∧ Tracks r b₀ [] b₀ := by
  -- opening a unit adds one that has done nothing yet
  have start : b₀.session.frontEnd = r ∧ b₀.session.options = o ∧ b₀.session.environment = {} ∧
      ∀ u ∈ b₀.units, u.tree = {} ∧ u.completed = fun _ => none := by
    induction h with
    | fresh => exact ⟨rfl, rfl, rfl, fun u hu => absurd hu List.not_mem_nil⟩
    | opened _ hopen ih =>
      obtain ⟨-, files, file, rfl⟩ := openUnit_cases hopen
      refine ⟨ih.1, ih.2.1, ih.2.2.1, fun u hu => ?_⟩
      rcases List.mem_append.1 hu with hu | hu
      · exact ih.2.2.2 u hu
      · rw [List.mem_singleton.1 hu]
        exact ⟨rfl, rfl⟩
  obtain ⟨hfrontEnd, hoptions, henvironment, hunits⟩ := start
  have hbehind : ∀ u ∈ b₀.units, u.IsBehind b₀.session.frontEnd.reached := by
    intro u hu stage hstage
    exact absurd (congrFun (hunits u hu).2 stage) hstage
  have htrees : ∀ u ∈ b₀.units, TreeOf r b₀.session.options u := by
    intro u hu
    obtain ⟨htree, hcompleted⟩ := hunits u hu
    refine ⟨Or.inl (by rw [htree]; rfl), fun hpopulated => ?_⟩
    rw [hcompleted] at hpopulated
    exact absurd hpopulated nofun
  have hknows : b₀.session.environment.Knows fun c => ∃ (i : Nat) (u : SourceUnit),
      b₀.units[i]? = some u ∧ c ∈ (u.solo b₀.session (callsOf i [])).bindings := by
    rw [henvironment]
    refine Environment.Knows.empty.congr fun c => ⟨False.elim, ?_⟩
    rintro ⟨i, u, -, hc⟩
    exact absurd hc List.not_mem_nil
  exact ⟨hfrontEnd, hoptions, rfl, fun i u hu => hu, hfrontEnd, rfl, rfl, hbehind, htrees, hknows⟩

/-- With a clean front end the session is always like the one at the start. -/
theorem Tracks.alike (h : Tracks r b₀ σ b) (hr : b₀.session.frontEnd = r) :
    b.session.Alike b₀.session where
  options := h.options
  frontEnd := by
    rw [h.frontEnd, hr]

/-- The identities that are known after a callback are those that were known, and those that it
registers. -/
theorem Tracks.environment_call (h : Tracks r b₀ σ b) {i : Nat} {u : SourceUnit}
    (hu : b₀.units[i]? = some u) (callback : Callback) :
    (b.session.environment.registerAll
        ((u.solo b₀.session (callsOf i σ)).unit.registers callback)).Knows
      fun c => ∃ (j : Nat) (w : SourceUnit), b₀.units[j]? = some w ∧
        c ∈ (w.solo b₀.session (callsOf j (σ ++ [(i, callback)]))).bindings := by
  have htree := h.trees _ (List.mem_of_getElem? (h.unit i u hu))
  have hsegmented := htree.isSegmented_registers callback
  refine (h.environment.registerAll hsegmented).congr fun c => ?_
  constructor
  · rintro (⟨j, w, hw, hc⟩ | hc)
    · -- a unit has registered it before
      refine ⟨j, w, hw, ?_⟩
      rw [SourceUnit.solo_callsOf_concat]
      split
      · exact List.mem_append_left _ hc
      · exact hc
    · refine ⟨i, u, hu, ?_⟩
      rw [SourceUnit.solo_callsOf_concat, if_pos rfl]
      exact List.mem_append_right _ hc
  · rintro ⟨j, w, hw, hc⟩
    rw [SourceUnit.solo_callsOf_concat] at hc
    split at hc
    · next hij =>
      subst hij
      obtain rfl := Option.some.inj (hu.symm.trans hw)
      exact (List.mem_append.1 hc).imp_left fun hc => ⟨i, u, hu, hc⟩
    · exact Or.inl ⟨j, w, hw, hc⟩

/-- **One callback** takes its unit one step further on its way, and no other. -/
theorem Tracks.call (h : Tracks r b₀ σ b) (hclean : r.IsClean) (hr : b₀.session.frontEnd = r)
    {i : Nat} (hi : i < b₀.units.length) (callback : Callback) :
    ∃ b' outcome, b.call i callback = some (b', outcome) ∧
      Tracks r b₀ (σ ++ [(i, callback)]) b' ∧
      ∀ (j : Nat) (u : SourceUnit), b₀.units[j]? = some u →
        (u.solo b₀.session (callsOf j (σ ++ [(i, callback)]))).answers =
          (u.solo b₀.session (callsOf j σ)).answers ++
            if i = j then callback.answers outcome else [] := by
  obtain ⟨u, hu⟩ : ∃ u, b₀.units[i]? = some u := ⟨_, List.getElem?_eq_getElem hi⟩
  have hunit := h.unit i u hu
  have hmem := List.mem_of_getElem? hunit
  -- the unit does what it does on its own, and so much is known of the session afterwards
  have hcalled := SourceUnit.called_alike (u := (u.solo b₀.session (callsOf i σ)).unit) (h.alike hr)
    (hr ▸ hclean) callback
  have hsession :=
    SourceUnit.session_called (h.frontEnd ▸ hclean.moved _) (h.behind _ hmem) callback
  refine ⟨_, _, by rw [call_eq, onUnit, hunit, Option.map_some],
    ⟨?_, ?_, ?_, ?_, ?_, ?_, ?_, ?_⟩, ?_⟩
  · rw [List.length_set, h.length]
  · intro j w hw
    rw [SourceUnit.solo_callsOf_concat]
    by_cases hij : i = j
    · subst hij
      obtain rfl := Option.some.inj (hu.symm.trans hw)
      rw [List.getElem?_set_self (h.length ▸ hi), if_pos rfl, hcalled.1]
      rfl
    · rw [List.getElem?_set_ne hij, if_neg hij, h.unit j w hw]
  · -- one more callback has moved the front end on
    rw [hsession, driveAll, List.foldl_concat, ← driveAll]
    dsimp only
    rw [h.frontEnd]
  · rw [hsession, h.options]
  · rw [hsession, h.files]
  · intro w hw
    rw [hsession]
    rcases List.mem_or_eq_of_mem_set hw with hw | rfl
    · exact (h.behind w hw).drive callback
    · exact SourceUnit.isBehind_called (h.behind _ hmem) callback
  · intro w hw
    rcases List.mem_or_eq_of_mem_set hw with hw | rfl
    · exact h.trees w hw
    · have htree := h.trees _ hmem
      rw [← h.options] at htree ⊢
      exact htree.called (by rw [h.frontEnd]; rfl) callback
  · rw [hsession]
    exact h.environment_call hu callback
  · intro j w hw
    rw [SourceUnit.solo_callsOf_concat]
    by_cases hij : i = j
    · subst hij
      obtain rfl := Option.some.inj (hu.symm.trans hw)
      rw [if_pos rfl, if_pos rfl, hcalled.2]
      rfl
    · rw [if_neg hij, if_neg hij, List.append_nil]

/-- **A schedule** takes each unit along its own way, and the answers are those that the units give
on their own. -/
theorem Tracks.callAll (h : Tracks r b₀ σ b) (hclean : r.IsClean) (hr : b₀.session.frontEnd = r)
    (hτ : ∀ call ∈ τ, call.1 < b₀.units.length) :
    ∃ b' answers, b.callAll τ = some (b', answers) ∧ Tracks r b₀ (σ ++ τ) b' ∧
      (∀ (j : Nat) (u : SourceUnit), b₀.units[j]? = some u →
        (u.solo b₀.session (callsOf j (σ ++ τ))).answers =
          (u.solo b₀.session (callsOf j σ)).answers ++ answersOf j answers) ∧
      ∀ a ∈ answers, a.unit < b₀.units.length := by
  -- by induction on what is still to come; `Tracks` says what has been done
  induction τ generalizing σ b with
  | nil =>
    refine ⟨b, [], rfl, by rwa [List.append_nil], fun j u hu => ?_, nofun⟩
    rw [List.append_nil]
    exact (List.append_nil _).symm
  | cons call τ ih =>
    obtain ⟨i, callback⟩ := call
    have hi := hτ (i, callback) List.mem_cons_self
    obtain ⟨b₁, outcome, hcall, htracks, hanswers⟩ := h.call hclean hr hi callback
    obtain ⟨b', answers, hcallAll, htracks', hanswers', hunits⟩ :=
      ih htracks fun call hcall => hτ call (List.mem_cons_of_mem _ hcall)
    rw [List.append_assoc, List.singleton_append] at htracks'
    refine ⟨b', (callback.answers outcome).map (fun (stage, outcome) => ⟨i, stage, outcome⟩) ++
      answers, ?_, htracks', fun j u hu => ?_, fun a ha => ?_⟩
    · rw [Build.callAll, hcall]
      dsimp only
      rw [hcallAll]
      rfl
    · have hrest := hanswers' j u hu
      rw [List.append_assoc, List.singleton_append, hanswers j u hu] at hrest
      rw [hrest, answersOf_append, answersOf_map, List.append_assoc]
    · rcases List.mem_append.1 ha with ha | ha
      · obtain ⟨answer, -, rfl⟩ := List.mem_map.1 ha
        exact hi
      · exact hunits a ha

/-- What the units answer on their own. -/
def soloAnswers (b₀ : Build) (σ : List (Nat × Callback)) (i : Nat) : List (Stage × Outcome) :=
  (b₀.units[i]?.map fun u => (u.solo b₀.session (callsOf i σ)).answers).getD []

/-- **Every schedule runs**, and leads the units along their ways. -/
theorem Opened.callAll (h : Opened r o b₀) (hclean : r.IsClean)
    (hσ : ∀ call ∈ σ, call.1 < b₀.units.length) :
    ∃ b answers, b₀.callAll σ = some (b, answers) ∧ Tracks r b₀ σ b ∧
      ∀ i, answersOf i answers = soloAnswers b₀ σ i := by
  obtain ⟨hr, -, hstart⟩ := h.tracks
  obtain ⟨b, answers, hcallAll, htracks, hanswers, hunits⟩ := hstart.callAll hclean hr hσ
  refine ⟨b, answers, hcallAll, htracks, fun i => ?_⟩
  rw [soloAnswers]
  cases hu : b₀.units[i]? with
  | some u => exact (hanswers i u hu).symm
  | none =>
    -- there is no unit of this number, and no answer either
    rw [Option.map_none, Option.getD_none, answersOf, List.map_eq_nil_iff, List.filter_eq_nil_iff]
    intro a ha heq
    have hlt := hunits a ha
    rw [of_decide_eq_true heq] at hlt
    exact absurd (List.getElem?_eq_none_iff.1 hu) (Nat.not_le.2 hlt)

/-- **Builds that have ended alike**, with the same answers of all units. -/
structure SameEnd (b : Build) (answers : List Answer) (b' : Build) (answers' : List Answer) :
    Prop where
  units : b.units = b'.units
  answers : ∀ i, answersOf i answers = answersOf i answers'
  frontEnd : b.session.frontEnd = b'.session.frontEnd
  options : b.session.options = b'.session.options
  files : b.session.files = b'.session.files
  lookup? : ∀ name, b.session.environment.lookup? name = b'.session.environment.lookup? name
  size : b.session.environment.size = b'.session.environment.size

/-- Two runs that follow the same ways have led to the same end. -/
theorem Tracks.sameEnd (h : Tracks r b₀ σ b) (h' : Tracks r b₀ τ b')
    (hsame : ∀ i, callsOf i σ = callsOf i τ) {answers answers' : List Answer}
    (hanswers : ∀ i, answersOf i answers = answersOf i answers') :
    SameEnd b answers b' answers' where
  units := by
    refine List.ext_getElem? fun i => ?_
    cases hu : b₀.units[i]? with
    | some u => rw [h.unit i u hu, h'.unit i u hu, hsame]
    | none =>
      rw [List.getElem?_eq_none_iff] at hu
      rw [List.getElem?_eq_none (h.length ▸ hu), List.getElem?_eq_none (h'.length ▸ hu)]
  answers := hanswers
  frontEnd := by rw [h.frontEnd, h'.frontEnd, driveAll_perm (perm_of_callsOf hsame)]
  options := h.options.trans h'.options.symm
  files := h.files.trans h'.files.symm
  lookup? := by
    refine h.environment.lookup?_congr (h'.environment.congr fun c => ?_)
    simp only [hsame]
  size := by
    refine h.environment.size_congr (h'.environment.congr fun c => ?_)
    simp only [hsame]

end Build

end HostBridge
