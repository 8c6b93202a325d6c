import HostBridge.Proofs.Text.Bytes
import HostBridge.Task.Scan

/-!
# The text of a task

The text of a task is cut out of what follows its tag in several steps: the rest of the line, the
blanks at its end, the delimiter that ends the comment, the blanks before that, the blanks at the
start. This file says what comes out in terms of the whole: `IsTask` splits what follows the tag
into the blanks before the text, the text, what closes the comment, and the lines behind.

* `isTask_iff` — the text of a task is such a text, and there is no other one;
* `ne_byteLength_of_letters` — a word of letters stands inside the text or outside of it: the text
  does not end with the first letter of a longer word.
-/

namespace HostBridge.Task

/-! ### Blanks at the end -/

theorem mem_takeTrailing {α : Type} {p : α → Bool} {l : List α} {a : α}
    (h : a ∈ Text.takeTrailing p l) : p a = true := by
  rw [Text.takeTrailing, List.mem_reverse] at h
  exact List.all_eq_true.1 (List.all_takeWhile) a h

/-- What is trimmed off at the end of a text are blanks. -/
theorem trimEnd_append_blanks (cs : List Char) :
    ∃ blanks, cs = Text.trimEnd cs ++ blanks ∧ ∀ c ∈ blanks, Text.isBlank c = true :=
  ⟨Text.takeTrailing Text.isBlank cs, (Text.dropTrailing_append Text.isBlank cs).symm,
    fun _ hc => mem_takeTrailing hc⟩

/-- A text that does not end in a blank. -/
def EndsVisibly (cs : List Char) : Prop := ∀ c, cs.getLast? = some c → Text.isBlank c = false

theorem endsVisibly_trimEnd (cs : List Char) : EndsVisibly (Text.trimEnd cs) := by
  intro c hc
  have hne : Text.trimEnd cs ≠ [] := fun hnil => by simp [hnil] at hc
  rw [List.getLast?_eq_some_getLast hne] at hc
  exact Option.some.inj hc ▸ Text.trimEnd_isBlank_getLast cs hne

/-- There is nothing to be trimmed off a text that does not end in a blank. -/
theorem trimEnd_of_endsVisibly {cs : List Char} (h : EndsVisibly cs) : Text.trimEnd cs = cs := by
  obtain ⟨blanks, hcs, hblanks⟩ := trimEnd_append_blanks cs
  cases hlast : blanks.getLast? with
  | none =>
    rw [List.getLast?_eq_none_iff] at hlast
    rwa [hlast, List.append_nil, eq_comm] at hcs
  | some c =>
    have hvisible := h c (by rw [hcs, List.getLast?_append, hlast]; rfl)
    rw [hblanks c (List.mem_of_getLast? hlast)] at hvisible
    cases hvisible

/-! ### The text up to the end of the comment -/

/-- **What closes a task**: blanks, with the delimiter that ends a comment among them if there is
one. -/
def IsClosing (body closing : List Char) : Prop :=
  (∃ blanks blanks', closing = blanks ++ ['*', '/'] ++ blanks' ∧
      ∀ c ∈ blanks ++ blanks', Text.isBlank c = true) ∨
    ((∀ c ∈ closing, Text.isBlank c = true) ∧ ¬ ['*', '/'] <:+ body)

def IsBreak (c : Char) : Prop := c = '\n' ∨ c = '\r'

/-- **The text of a task** in what follows its tag, with the blanks before it. -/
structure IsTask (rest lead message : List Char) : Prop where
  /-- The text is on the line of the tag, and nothing but the end of the comment follows there. -/
  line : ∃ closing after, rest = lead ++ message ++ closing ++ after ∧
    (∀ c ∈ lead ++ message ++ closing, ¬ IsBreak c) ∧
    (∀ c, after.head? = some c → IsBreak c) ∧ IsClosing (lead ++ message) closing
  lead_blank : ∀ c ∈ lead, Text.isBlank c = true
  starts : ∀ c, message.head? = some c → Text.isBlank c = false
  ends : EndsVisibly (lead ++ message)

/-- The first character that a run of characters stops at is not of its kind. -/
theorem of_head?_dropWhile {α : Type} {p : α → Bool} {l : List α} {a : α}
    (h : (l.dropWhile p).head? = some a) : p a = false := by
  have hne : l.dropWhile p ≠ [] := fun hnil => by simp [hnil] at h
  have hnot := List.head_dropWhile_not p hne
  rw [List.head?_eq_some_head hne] at h
  exact Option.some.inj h ▸ hnot

theorem upToBreak_split (rest : List Char) :
    ∃ after, rest = Text.upToBreak rest ++ after ∧ (∀ c ∈ Text.upToBreak rest, ¬ IsBreak c) ∧
      ∀ c, after.head? = some c → IsBreak c := by
  refine ⟨_, List.takeWhile_append_dropWhile.symm, fun c hc hbreak => ?_, fun c hc => ?_⟩
  · have hkept := List.all_eq_true.1 List.all_takeWhile c hc
    rcases hbreak with rfl | rfl <;> simp at hkept
  · have hstop := of_head?_dropWhile hc
    simp only [Bool.and_eq_false_iff, bne_eq_false_iff_eq] at hstop
    exact hstop

/-- What follows a tag is the text of the task with the blanks before it, then what closes it, then
the lines behind. -/
theorem taskBody_split (rest : List Char) :
    ∃ closing after, rest = taskBody rest ++ closing ++ after ∧
      (∀ c ∈ taskBody rest ++ closing, ¬ IsBreak c) ∧
      (∀ c, after.head? = some c → IsBreak c) ∧ IsClosing (taskBody rest) closing ∧
      EndsVisibly (taskBody rest) := by
  obtain ⟨after, hrest, hline, hafter⟩ := upToBreak_split rest
  obtain ⟨blanks, htrimmed, hblanks⟩ := trimEnd_append_blanks (Text.upToBreak rest)
  rw [taskBody]
  cases hends : Text.beforeSuffix? ['*', '/'] (Text.trimEnd (Text.upToBreak rest)) with
  | some body =>
    -- the delimiter is cut off, and then the blanks before it
    rw [Text.beforeSuffix?_eq_some_iff] at hends
    obtain ⟨blanks', hbody, hblanks'⟩ := trimEnd_append_blanks body
    have hsplit : Text.upToBreak rest =
        Text.trimEnd body ++ (blanks' ++ ['*', '/'] ++ blanks) := by
      rw [htrimmed, hends]
      conv => lhs; rw [hbody]
      simp
    refine ⟨blanks' ++ ['*', '/'] ++ blanks, after, by rw [← hsplit]; exact hrest,
      by rw [← hsplit]; exact hline, hafter, Or.inl ⟨blanks', blanks, rfl, fun c hc => ?_⟩,
      endsVisibly_trimEnd body⟩
    exact (List.mem_append.1 hc).elim (hblanks' c) (hblanks c)
  | none =>
    dsimp only
    rw [trimEnd_of_endsVisibly (endsVisibly_trimEnd _)]
    refine ⟨blanks, after, by rw [← htrimmed]; exact hrest, by rw [← htrimmed]; exact hline,
      hafter, Or.inr ⟨hblanks, ?_⟩, endsVisibly_trimEnd _⟩
    rintro ⟨body, hbody⟩
    rw [Text.beforeSuffix?_eq_some_iff.2 hbody.symm] at hends
    cases hends

/-! ### The text itself -/

/-- The text of a task, without blanks around it. -/
def taskText (rest : List Char) : List Char := Text.trimStart (taskBody rest)

/-- The blanks before the text of a task. -/
def taskLead (rest : List Char) : List Char := (taskBody rest).takeWhile Text.isBlank

theorem taskLead_append_taskText (rest : List Char) :
    taskLead rest ++ taskText rest = taskBody rest :=
  List.takeWhile_append_dropWhile

/-- There are no blanks before a text that is empty. -/
theorem taskBody_of_taskText_eq_nil {rest : List Char} (h : taskText rest = []) :
    taskBody rest = [] := by
  obtain ⟨closing, after, -, -, -, -, hvisible⟩ := taskBody_split rest
  have hlead := taskLead_append_taskText rest
  rw [h, List.append_nil] at hlead
  cases hlast : (taskBody rest).getLast? with
  | none => exact List.getLast?_eq_none_iff.1 hlast
  | some c =>
    -- the last character would be a blank, and it is not
    have hmem : c ∈ taskLead rest := hlead ▸ List.mem_of_getLast? hlast
    have hblank := List.all_eq_true.1 List.all_takeWhile c hmem
    rw [hvisible c hlast] at hblank
    cases hblank

theorem isTask_taskText (rest : List Char) : IsTask rest (taskLead rest) (taskText rest) := by
  obtain ⟨closing, after, hsplit⟩ := taskBody_split rest
  rw [← taskLead_append_taskText] at hsplit
  obtain ⟨hrest, hline, hafter, hclosing, hvisible⟩ := hsplit
  exact
    { line := ⟨closing, after, hrest, hline, hafter, hclosing⟩
      lead_blank := fun c hc => List.all_eq_true.1 List.all_takeWhile c hc
      starts := fun c hc => of_head?_dropWhile hc
      ends := hvisible }

/-! ### No other text is one -/

theorem trimEnd_append {cs blanks : List Char} (h : EndsVisibly cs)
    (hblanks : ∀ c ∈ blanks, Text.isBlank c = true) : Text.trimEnd (cs ++ blanks) = cs := by
  have hreverse (c : Char) (hc : c ∈ blanks.reverse) : Text.isBlank c = true :=
    hblanks c (List.mem_reverse.1 hc)
  rw [Text.trimEnd, Text.dropTrailing, List.reverse_append, List.dropWhile_append_of_pos hreverse]
  exact trimEnd_of_endsVisibly h

/-- A run of characters ends where it is followed by one of another kind. -/
theorem takeWhile_append_of_head? {α : Type} {p : α → Bool} {l l' : List α}
    (hl : ∀ a ∈ l, p a = true) (hl' : ∀ a, l'.head? = some a → p a = false) :
    (l ++ l').takeWhile p = l := by
  rw [List.takeWhile_append_of_pos hl]
  cases l' with
  | nil => exact List.append_nil l
  | cons a l' => rw [List.takeWhile_cons, hl' a rfl, if_neg Bool.false_ne_true, List.append_nil]

theorem upToBreak_append {line after : List Char} (hline : ∀ c ∈ line, ¬ IsBreak c)
    (hafter : ∀ c, after.head? = some c → IsBreak c) : Text.upToBreak (line ++ after) = line := by
  refine takeWhile_append_of_head? (fun c hc => ?_) fun c hc => ?_
  · have hnot := hline c hc
    rw [IsBreak, not_or] at hnot
    simp [hnot.1, hnot.2]
  · rcases hafter c hc with rfl | rfl <;> rfl

/-- **What follows a tag determines the text** and the blanks before it. -/
theorem isTask_iff {rest lead message : List Char} :
    IsTask rest lead message ↔ lead = taskLead rest ∧ message = taskText rest := by
  constructor
  · intro h
    obtain ⟨closing, after, hrest, hline, hafter, hclosing⟩ := h.line
    have hbody : taskBody rest = lead ++ message := by
      rw [List.append_assoc (lead ++ message)] at hrest
      rw [taskBody, hrest, ← List.append_assoc, upToBreak_append hline hafter]
      rcases hclosing with ⟨blanks, blanks', rfl, hblanks⟩ | ⟨hblanks, hnone⟩
      · have hdelimiter : EndsVisibly (lead ++ message ++ blanks ++ ['*', '/']) := by
          intro c hc
          rw [List.getLast?_append] at hc
          obtain rfl := Option.some.inj hc
          decide
        have htrimmed := trimEnd_append hdelimiter fun c hc =>
          hblanks c (List.mem_append_right blanks hc)
        rw [← List.append_assoc, ← List.append_assoc, htrimmed,
          Text.beforeSuffix?_eq_some_iff.2 rfl]
        exact trimEnd_append h.ends fun c hc => hblanks c (List.mem_append_left blanks' hc)
      · rw [trimEnd_append h.ends hblanks]
        cases hends : Text.beforeSuffix? ['*', '/'] (lead ++ message) with
        | some body => exact absurd ⟨body, (Text.beforeSuffix?_eq_some_iff.1 hends).symm⟩ hnone
        | none => exact trimEnd_of_endsVisibly h.ends
    have hlead : taskLead rest = lead := by
      rw [taskLead, hbody]
      exact takeWhile_append_of_head? h.lead_blank h.starts
    have hsplit := taskLead_append_taskText rest
    rw [hbody, hlead] at hsplit
    exact ⟨hlead.symm, (List.append_cancel_left hsplit).symm⟩
  · rintro ⟨rfl, rfl⟩
    exact isTask_taskText rest

/-! ### Words and the end of a text -/

/-- The codes of the letters. -/
theorem isAlpha_iff {c : Char} :
    c.isAlpha = true ↔ 65 ≤ c.toNat ∧ c.toNat ≤ 90 ∨ 97 ≤ c.toNat ∧ c.toNat ≤ 122 := by
  change (decide (65 ≤ c.val ∧ c.val ≤ 90) ||
    decide (97 ≤ c.val) && decide (c.val ≤ 122)) = true ↔ _
  simp only [Bool.or_eq_true, Bool.and_eq_true, decide_eq_true_eq, UInt32.le_iff_toNat_le]
  exact Iff.rfl

/-- A letter is no blank. -/
theorem not_isBlank_of_isAlpha {c : Char} (h : c.isAlpha = true) : Text.isBlank c = false := by
  have := isAlpha_iff.1 h
  simp only [Text.isBlank, Bool.or_eq_false_iff, Bool.and_eq_false_iff, decide_eq_false_iff_not,
    beq_eq_false_iff_ne]
  omega

/-- A letter does not end a line. -/
theorem not_isBreak_of_isAlpha {c : Char} (h : c.isAlpha = true) : ¬ IsBreak c := by
  rintro (rfl | rfl) <;> exact absurd h (by decide)

/-- A letter takes one byte. -/
theorem utf8Size_of_isAlpha {c : Char} (h : c.isAlpha = true) : c.utf8Size = 1 := by
  have hcode := isAlpha_iff.1 h
  rw [Char.utf8Size_eq_one_iff, UInt32.le_iff_toNat_le]
  change c.toNat ≤ 127
  omega

/-- What closes a task does not start with a letter. -/
theorem not_isAlpha_of_head?_closing {body closing : List Char} (h : IsClosing body closing)
    {c : Char} (hc : closing.head? = some c) : c.isAlpha = false := by
  rw [← Bool.not_eq_true]
  intro hletter
  have hvisible := not_isBlank_of_isAlpha hletter
  rcases h with ⟨blanks, blanks', rfl, hblanks⟩ | ⟨hblanks, -⟩
  · cases blanks with
    | nil =>
      obtain rfl := Option.some.inj hc
      exact absurd hletter (by decide)
    | cons d blanks =>
      obtain rfl := Option.some.inj hc
      rw [hblanks d (by simp)] at hvisible
      cases hvisible
  · rw [hblanks c (List.mem_of_mem_head? hc)] at hvisible
    cases hvisible

/-- **A text does not end in the middle of a word.** -/
theorem ne_byteLength_of_letters {rest mid tail : List Char} {a b : Char}
    (h : rest = mid ++ a :: b :: tail) (ha : a.isAlpha = true) (hb : b.isAlpha = true) :
    Text.byteLength (taskBody rest) ≠ Text.byteLength mid + 1 := by
  intro hlength
  obtain ⟨closing, after, hsplit, -, hafter, hclosing, -⟩ := taskBody_split rest
  -- the text would end with the first of the two letters
  have hbody : taskBody rest = mid ++ [a] := by
    have hfront : taskBody rest <+: rest :=
      ⟨closing ++ after, by rw [← List.append_assoc, ← hsplit]⟩
    have hfront' : mid ++ [a] <+: rest := ⟨b :: tail, by simp [h]⟩
    refine Text.eq_of_byteLength_eq hfront hfront' ?_
    simp [hlength, utf8Size_of_isAlpha ha]
  have hnext : closing ++ after = b :: tail := by
    have hboth : mid ++ [a] ++ (closing ++ after) = mid ++ [a] ++ b :: tail :=
      calc mid ++ [a] ++ (closing ++ after)
          = taskBody rest ++ closing ++ after := by rw [hbody, ← List.append_assoc]
        _ = mid ++ a :: b :: tail := by rw [← hsplit, h]
        _ = mid ++ [a] ++ b :: tail := by simp
    exact List.append_cancel_left hboth
  -- so what follows would start with the second one
  cases closing with
  | nil => exact not_isBreak_of_isAlpha hb (hafter b (by rw [← List.nil_append after, hnext]; rfl))
  | cons c closing =>
    obtain ⟨rfl, -⟩ := List.cons_eq_cons.1 hnext
    rw [not_isAlpha_of_head?_closing hclosing rfl] at hb
    cases hb

end HostBridge.Task
