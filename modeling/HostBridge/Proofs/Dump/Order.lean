import HostBridge.Dump.Report
import HostBridge.Proofs.Session.Interleaving

/-!
# The order of a dump

A dump runs the host's pipeline stage by stage, each stage for all files; a host may as well finish
one file before it begins with the next one. With a clean front end it makes no difference, nor does
any other order: `Build.confluent_of_clean`.

A dump is a run of a build, only that the outcomes of each file are kept with the file. So it is
shown to follow the units on their ways, `Dump.Follows`, as any run does. One pass over the files is
`Follows.forEach`; the stages are a sequence of passes, `Follows.runStages`.
-/

namespace HostBridge

namespace Stage

/-- The callbacks that the pipeline runs for a stage: scopes are built before names are resolved. -/
def callbacks (stage : Stage) : List Callback :=
  if stage = .resolve then [.buildScope, .stage stage] else [.stage stage]

/-- The callbacks of one file up to a last stage. -/
def pipeline (last : Stage) : List Callback := last.upTo.flatMap callbacks

example : generate.pipeline =
    [.stage .populate, .buildScope, .stage .resolve, .stage .analyse, .stage .generate] := rfl

end Stage

/-! ### Schedules -/

/-- One unit after the other, each with the same callbacks. -/
def fileByFile (n : Nat) (callbacks : List Callback) : List (Nat × Callback) :=
  (List.range n).flatMap fun i => callbacks.map fun callback => (i, callback)

/-- One callback after the other, each for all units. -/
def stageByStage (n : Nat) (callbacks : List Callback) : List (Nat × Callback) :=
  callbacks.flatMap fun callback => fileByFile n [callback]

/-- A schedule that gives each unit its own callbacks, in their order. -/
structure Interleaves (n : Nat) (calls : Nat → List Callback) (σ : List (Nat × Callback)) :
    Prop where
  valid : ∀ call ∈ σ, call.1 < n
  callsOf : ∀ i < n, callsOf i σ = calls i

/-- Schedules of the same callbacks have the same callbacks for each unit. -/
theorem Interleaves.callsOf_eq {n : Nat} {calls : Nat → List Callback}
    {σ τ : List (Nat × Callback)} (hσ : Interleaves n calls σ) (hτ : Interleaves n calls τ)
    (i : Nat) : HostBridge.callsOf i σ = HostBridge.callsOf i τ := by
  by_cases hi : i < n
  · rw [hσ.callsOf i hi, hτ.callsOf i hi]
  · -- neither has a callback for a unit that is not there
    have hnone : ∀ {υ}, Interleaves n calls υ → HostBridge.callsOf i υ = [] := by
      intro υ hυ
      rw [HostBridge.callsOf, List.map_eq_nil_iff, List.filter_eq_nil_iff]
      intro call hcall heq
      exact hi (of_decide_eq_true heq ▸ hυ.valid call hcall)
    rw [hnone hσ, hnone hτ]

theorem interleaves_fileByFile (n : Nat) (callbacks : List Callback) :
    Interleaves n (fun _ => callbacks) (fileByFile n callbacks) where
  valid := by
    intro call hcall
    obtain ⟨i, hi, hcall⟩ := List.mem_flatMap.1 hcall
    obtain ⟨callback, -, rfl⟩ := List.mem_map.1 hcall
    exact List.mem_range.1 hi
  callsOf := by
    -- the callbacks of a unit come when its turn has come
    have hturn : ∀ n j, callsOf j (fileByFile n callbacks) = if j < n then callbacks else [] := by
      intro n j
      induction n with
      | zero => rfl
      | succ n ih =>
        have hlast : fileByFile (n + 1) callbacks =
            fileByFile n callbacks ++ callbacks.map fun callback => (n, callback) := by
          rw [fileByFile, List.range_succ, List.flatMap_append, List.flatMap_singleton]
          rfl
        rw [hlast, callsOf_append, callsOf_map, ih]
        by_cases hjn : n = j
        · subst hjn
          rw [if_neg (Nat.lt_irrefl n), if_pos rfl, if_pos (Nat.lt_succ_self n), List.nil_append]
        · rw [if_neg hjn, List.append_nil]
          exact if_congr (by omega) rfl rfl
    intro i hi
    rw [hturn, if_pos hi]

theorem interleaves_stageByStage (n : Nat) (callbacks : List Callback) :
    Interleaves n (fun _ => callbacks) (stageByStage n callbacks) where
  valid := by
    intro call hcall
    obtain ⟨callback, -, hcall⟩ := List.mem_flatMap.1 hcall
    exact (interleaves_fileByFile n [callback]).valid call hcall
  callsOf := by
    intro i hi
    rw [stageByStage]
    induction callbacks with
    | nil => rfl
    | cons callback callbacks ih =>
      rw [List.flatMap_cons, callsOf_append, (interleaves_fileByFile n [callback]).callsOf i hi, ih,
        List.singleton_append]

/-! ### A dump as a run -/

namespace Dump

variable {r : Recording} {o : Options} {b₀ : Build} {σ : List (Nat × Callback)}

/-- The build of a dump. -/
def toBuild (d : Dump) : Build := ⟨d.session, d.reports.map (·.unit)⟩

/-- What the stages have answered, file by file. -/
def answers (d : Dump) : List Answer :=
  d.reports.zipIdx.flatMap fun (report, i) =>
    report.outcomes.map fun (stage, outcome) => ⟨i, stage, outcome⟩

/-- **A dump follows the units** as the run of a build does, and keeps with each file what its unit
answers on its own. -/
structure Follows (r : Recording) (b₀ : Build) (calls : List (Nat × Callback)) (d : Dump) :
    Prop where
  tracks : Build.Tracks r b₀ calls d.toBuild
  outcomes : ∀ (i : Nat) (u : SourceUnit) report, b₀.units[i]? = some u →
    d.reports[i]? = some report →
    report.outcomes = (u.solo b₀.session (callsOf i calls)).answers

theorem Follows.length {d : Dump} (h : Follows r b₀ σ d) :
    d.reports.length = b₀.units.length := by
  rw [← h.tracks.length, toBuild, List.length_map]

/-- **One pass over the files** is a callback for each of them. -/
theorem Follows.forEach {α : Type} {f : SourceUnit → Session → Step α}
    {note : UnitReport → α → UnitReport} (hclean : r.IsClean) (hr : b₀.session.frontEnd = r)
    (callback : Callback) (outcome : α → Option Outcome)
    (hf : ∀ (u : SourceUnit) s, u.called s callback =
      ⟨(f u s).unit, (f u s).session, outcome (f u s).result⟩)
    (hnote : ∀ report a, (note report a).unit = report.unit ∧
      (note report a).outcomes = report.outcomes ++ callback.answers (outcome a))
    {reports before : List UnitReport} {s : Session} (h : Follows r b₀ σ ⟨s, before ++ reports⟩) :
    Follows r b₀
      (σ ++ (List.range' before.length reports.length).map fun i => (i, callback))
      ⟨(forEach f note s reports).session, before ++ (forEach f note s reports).reports⟩ := by
  -- by induction on the files to go; those before them have had their turn
  induction reports generalizing before s σ with
  | nil => simpa [Dump.forEach] using h
  | cons report reports ih =>
    have hfile := hf report.unit s
    rw [Dump.forEach]
    dsimp only
    generalize f report.unit s = step at hfile ⊢
    obtain ⟨hunit', houtcomes'⟩ := hnote { report with unit := step.unit } step.result
    generalize note { report with unit := step.unit } step.result = report' at hunit' houtcomes' ⊢
    -- the file whose turn it is changes its place in the list
    have hset : (before ++ report :: reports).set before.length report' =
        before ++ [report'] ++ reports := by
      simp
    have hget : (before ++ report :: reports)[before.length]? = some report := by simp
    have hunit : (toBuild ⟨s, before ++ report :: reports⟩).units[before.length]? =
        some report.unit := by
      rw [toBuild, List.getElem?_map, hget]
      rfl
    have hlt : before.length < b₀.units.length := by
      rw [← h.tracks.length]
      exact (List.getElem?_eq_some_iff.1 hunit).1
    obtain ⟨b', answer, hcall, htracks, hanswers⟩ := h.tracks.call hclean hr hlt callback
    rw [Build.call_eq, Build.onUnit, hunit, Option.map_some,
      show report.unit.called (toBuild ⟨s, before ++ report :: reports⟩).session callback = _ from
        hfile] at hcall
    obtain ⟨rfl, rfl⟩ := Prod.mk.inj (Option.some.inj hcall)
    -- so the units are followed after this step, and the pass goes on with the other files
    have hstep : Follows r b₀ (σ ++ [(before.length, callback)])
        ⟨step.session, before ++ [report'] ++ reports⟩ := by
      refine ⟨?_, fun j u report'' hu hreport => ?_⟩
      · rw [toBuild, ← hset, List.map_set, hunit']
        exact htracks
      · rw [hanswers j u hu]
        dsimp only at hreport
        rw [← hset] at hreport
        by_cases hj : before.length = j
        · subst hj
          rw [List.getElem?_set_self (List.getElem?_eq_some_iff.1 hget).1] at hreport
          obtain rfl := Option.some.inj hreport
          rw [houtcomes', if_pos rfl, ← h.outcomes _ u report hu hget]
        · rw [List.getElem?_set_ne hj] at hreport
          rw [if_neg hj, List.append_nil, ← h.outcomes j u report'' hu hreport]
    have hrest := ih hstep
    rw [List.append_assoc, List.length_append, List.length_singleton, List.append_assoc] at hrest
    exact hrest

theorem Follows.pass {α : Type} {f : SourceUnit → Session → Step α}
    {note : UnitReport → α → UnitReport} (hclean : r.IsClean) (hr : b₀.session.frontEnd = r)
    (callback : Callback) (outcome : α → Option Outcome)
    (hf : ∀ (u : SourceUnit) s, u.called s callback =
      ⟨(f u s).unit, (f u s).session, outcome (f u s).result⟩)
    (hnote : ∀ report a, (note report a).unit = report.unit ∧
      (note report a).outcomes = report.outcomes ++ callback.answers (outcome a))
    {d : Dump} (h : Follows r b₀ σ d) :
    Follows r b₀ (σ ++ fileByFile b₀.units.length [callback])
      (Dump.forEach f note d.session d.reports) := by
  have hcalls : fileByFile b₀.units.length [callback] =
      (List.range' ([] : List UnitReport).length d.reports.length).map fun i => (i, callback) := by
    rw [fileByFile, h.length, List.range_eq_range', List.length_nil]
    exact List.map_eq_flatMap.symm
  rw [hcalls]
  exact Follows.forEach hclean hr callback outcome hf hnote h

theorem Follows.runStage (hclean : r.IsClean) (hr : b₀.session.frontEnd = r) {d : Dump}
    (h : Follows r b₀ σ d) (stage : Stage) :
    Follows r b₀ (σ ++ stageByStage b₀.units.length stage.callbacks) (d.runStage stage) := by
  rw [Dump.runStage, Stage.callbacks, stageByStage]
  have hstage : ∀ {σ d}, Follows r b₀ σ d →
      Follows r b₀ (σ ++ fileByFile b₀.units.length [.stage stage])
        (Dump.forEach (fun u s => u.run s stage)
          (fun r outcome => { r with outcomes := r.outcomes ++ [(stage, outcome)] })
          d.session d.reports) := by
    intro σ d hd
    refine hd.pass hclean hr (.stage stage) some (fun _ _ => rfl) ?_
    exact fun _ _ => ⟨rfl, rfl⟩
  by_cases hresolve : stage = .resolve
  · -- the scopes come first
    rw [if_pos hresolve, if_pos hresolve, List.flatMap_cons, List.flatMap_cons, List.flatMap_nil,
      List.append_nil, ← List.append_assoc]
    refine hstage (h.pass hclean hr .buildScope (fun _ => none) (fun _ _ => rfl) fun report _ => ?_)
    exact ⟨rfl, (List.append_nil _).symm⟩
  · rw [if_neg hresolve, if_neg hresolve, List.flatMap_cons, List.flatMap_nil, List.append_nil]
    exact hstage h

/-- **The stages of a dump** are a run of the build. -/
theorem Follows.runStages (hclean : r.IsClean) (hr : b₀.session.frontEnd = r) (stages : List Stage)
    {d : Dump} (h : Follows r b₀ σ d) :
    Follows r b₀ (σ ++ stageByStage b₀.units.length (stages.flatMap Stage.callbacks))
      (stages.foldl Dump.runStage d) := by
  induction stages generalizing d σ with
  | nil => rwa [List.flatMap_nil, stageByStage, List.flatMap_nil, List.append_nil]
  | cons stage stages ih =>
    have hrest := ih (h.runStage hclean hr stage)
    rw [List.append_assoc, stageByStage, stageByStage, ← List.flatMap_append] at hrest
    exact hrest

/-! ### Opening -/

/-- Opening all files opens a build, and nothing has been answered yet. -/
theorem opened_openAll (us : List RecordedUnit) {s : Session} {before : List SourceUnit}
    (h : Build.Opened r o ⟨s, before⟩) :
    Build.Opened r o ⟨(openAll s us).session, before ++ (openAll s us).reports.map (·.unit)⟩ ∧
      ∀ report ∈ (openAll s us).reports, report.outcomes = [] := by
  induction us generalizing s before with
  | nil =>
    refine ⟨?_, nofun⟩
    simpa [openAll] using h
  | cons u us ih =>
    rw [openAll]
    cases hopen : s.openUnit u.module.id u.path u.text .accepting with
    | error fault => exact ih h
    | ok opened =>
      obtain ⟨s', unit⟩ := opened
      have hopened : Build.Opened r o ⟨s', before ++ [unit]⟩ :=
        h.opened (show Build.openUnit _ u.module.id u.path u.text .accepting = .ok _ by
          rw [Build.openUnit, hopen])
      obtain ⟨hrest, houtcomes⟩ := ih hopened
      rw [List.append_assoc] at hrest
      refine ⟨hrest, fun report hreport => ?_⟩
      rcases List.mem_cons.1 hreport with rfl | hreport
      · rfl
      · exact houtcomes report hreport

/-- The dump of a recording whose files have been opened. -/
def opened (r : Recording) (o : Options) : Dump := openAll { frontEnd := r, options := o } r.units

theorem opened_toBuild (r : Recording) (o : Options) : Build.Opened r o (opened r o).toBuild :=
  (opened_openAll r.units .fresh).1

theorem follows_opened (r : Recording) (o : Options) :
    Follows r (opened r o).toBuild [] (opened r o) where
  tracks := (opened_toBuild r o).tracks.2.2
  outcomes _ _ report _ hreport :=
    (opened_openAll r.units .fresh).2 report (List.mem_of_getElem? hreport)

/-! ### The answers of a dump -/

/-- The answers of one file are its outcomes. -/
theorem answersOf_answers (d : Dump) (i : Nat) :
    answersOf i d.answers = (d.reports[i]?.map (·.outcomes)).getD [] := by
  -- by induction on the files from a number on
  have hfrom : ∀ (reports : List UnitReport) first,
      answersOf i ((reports.zipIdx first).flatMap fun (report, j) =>
        report.outcomes.map fun (stage, outcome) => (⟨j, stage, outcome⟩ : Answer)) =
        if first ≤ i then (reports[i - first]?.map (·.outcomes)).getD [] else [] := by
    intro reports
    induction reports with
    | nil => intro first; simp [answersOf]
    | cons report reports ih =>
      intro first
      rw [List.zipIdx_cons, List.flatMap_cons, answersOf_append, answersOf_map, ih]
      rcases Nat.lt_trichotomy first i with hlt | rfl | hlt
      · -- the file is among the others
        have hindex : i - first = i - (first + 1) + 1 := by omega
        rw [if_neg (by omega), if_pos (by omega), if_pos (by omega), hindex,
          List.getElem?_cons_succ, List.nil_append]
      · rw [if_pos rfl, if_neg (by omega), if_pos (Nat.le_refl first), Nat.sub_self,
          List.getElem?_cons_zero, List.append_nil]
        rfl
      · rw [if_neg (by omega), if_neg (by omega), if_neg (by omega), List.append_nil]
  rw [answers, hfrom, if_pos (Nat.zero_le i), Nat.sub_zero]

/-- Each file of a dump has the answers that its unit gives on its own. -/
theorem Follows.answersOf_eq {d : Dump} (h : Follows r b₀ σ d) (i : Nat) :
    answersOf i d.answers = Build.soloAnswers b₀ σ i := by
  rw [answersOf_answers, Build.soloAnswers]
  cases hu : b₀.units[i]? with
  | none =>
    rw [List.getElem?_eq_none_iff, ← h.length] at hu
    rw [List.getElem?_eq_none hu]
    rfl
  | some u =>
    have hlt := (List.getElem?_eq_some_iff.1 hu).1
    rw [← h.length] at hlt
    rw [List.getElem?_eq_getElem hlt]
    exact h.outcomes i u _ hu (List.getElem?_eq_getElem hlt)

end Dump

namespace Build

variable {r : Recording}

/-- **With a clean front end the order of callbacks does not matter.** Take a recording with neither
messages nor faults, and any build with units opened for it, whatever their reporters accept. Give
each unit its own callbacks, for example those of the pipeline, in any two interleavings that keep
the order of those of each unit. Both run, and both lead to the same end: the units are the same,
with their trees, reporters and outcomes, the stages have answered the same, the front end has
reached the same phase, and the environment knows the same names. And a dump, which goes stage by
stage, ends as going file by file does. -/
theorem confluent_of_clean (hr : r.IsClean) (o : Options) :
    (∀ b₀ calls σ τ, Opened r o b₀ → Interleaves b₀.units.length calls σ →
      Interleaves b₀.units.length calls τ →
      ∃ b answers b' answers', b₀.callAll σ = some (b, answers) ∧
        b₀.callAll τ = some (b', answers') ∧ SameEnd b answers b' answers') ∧
    ∀ last : Stage, ∃ b answers,
      (Dump.opened r o).toBuild.callAll
          (fileByFile (Dump.opened r o).reports.length last.pipeline) = some (b, answers) ∧
        SameEnd (Dump.play r o last).toBuild (Dump.play r o last).answers b answers := by
  refine ⟨fun b₀ calls σ τ h hσ hτ => ?_, fun last => ?_⟩
  · have hsame := hσ.callsOf_eq hτ
    obtain ⟨b, answers, hb, htracks, hanswers⟩ := h.callAll hr hσ.valid
    obtain ⟨b', answers', hb', htracks', hanswers'⟩ := h.callAll hr hτ.valid
    refine ⟨b, answers, b', answers', hb, hb', htracks.sameEnd htracks' hsame fun i => ?_⟩
    rw [hanswers, hanswers', soloAnswers, soloAnswers, hsame]
  · have hopened := Dump.opened_toBuild r o
    rw [(Dump.follows_opened r o).length]
    have hfiles := interleaves_fileByFile (Dump.opened r o).toBuild.units.length last.pipeline
    have hstages := interleaves_stageByStage (Dump.opened r o).toBuild.units.length last.pipeline
    have hsame := hstages.callsOf_eq hfiles
    obtain ⟨b, answers, hb, htracks, hanswers⟩ := hopened.callAll hr hfiles.valid
    have hplay : Dump.Follows r (Dump.opened r o).toBuild
        (stageByStage (Dump.opened r o).toBuild.units.length last.pipeline) (Dump.play r o last) :=
      (Dump.follows_opened r o).runStages hr hopened.tracks.1 last.upTo
    refine ⟨b, answers, hb, hplay.tracks.sameEnd htracks hsame fun i => ?_⟩
    rw [hplay.answersOf_eq, hanswers, soloAnswers, soloAnswers, hsame]

/-- A recording of two files that declare classes of the same names. -/
def twoOuters : Recording where
  units :=
    [{ path := "A.groovy", module := .outerInner },
      { path := "B.groovy", module := { Source.Module.outerInner with id := ⟨1⟩ } }]

/-- Whichever file registers the two names first, the order does not matter. -/
theorem confluent_of_clean_twoOuters :
    ∃ b answers b' answers',
      (Dump.opened twoOuters {}).toBuild.callAll (stageByStage 2 Stage.generate.pipeline) =
        some (b, answers) ∧
      (Dump.opened twoOuters {}).toBuild.callAll (fileByFile 2 Stage.generate.pipeline) =
        some (b', answers') ∧
      SameEnd b answers b' answers' ∧
      SameEnd (Dump.play twoOuters {} .generate).toBuild (Dump.play twoOuters {} .generate).answers
        b' answers' ∧
      b'.session.environment.size = 2 := by
  have hclean : twoOuters.IsClean := by
    refine ⟨?_, ?_, rfl⟩ <;> simp [twoOuters]
  obtain ⟨hruns, hdump⟩ := confluent_of_clean hclean {}
  obtain ⟨b, answers, b', answers', hb, hb', hsame⟩ :=
    hruns (Dump.opened twoOuters {}).toBuild _ _ _ (Dump.opened_toBuild twoOuters {})
      (interleaves_stageByStage 2 Stage.generate.pipeline)
      (interleaves_fileByFile 2 Stage.generate.pipeline)
  obtain ⟨b'', answers'', hb'', hsame'⟩ := hdump .generate
  obtain ⟨rfl, rfl⟩ := Prod.mk.inj (Option.some.inj (hb'.symm.trans hb''))
  have hsize : (Dump.play twoOuters {} .generate).session.environment.size = 2 := by decide +kernel
  exact ⟨b, answers, b', answers', hb, hb', hsame, hsame', hsame'.size ▸ hsize⟩

end Build

end HostBridge
