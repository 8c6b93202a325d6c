import HostBridge.Proofs.Problem.Location

/-!
# Columns

Lines and columns are counted from one, so the first column of a line stands for its first byte. On
the first line it does not: there the column itself is taken as the offset, and a fault is reported
one byte too far to the right. On all other lines the column is added to the offset of the line
break before the line, which is what counting from one comes to.

* `Site.starts_at_column_iff` — a fault starts at the byte of its column exactly if it is not on the
  first line, or if it is at the very end of the file, where diagnostics are cut off. The same
  faults are moved by one byte if a line break is put in front of the file; all others stay where
  they are.
* `Site.first_line_off_by_one` — the first byte of a file.
-/

namespace HostBridge

open Text (IsColumn breakOffsets lineStarts lineBases)

/-! ### A line break in front -/

/-- A character in front of a text ends a line of its own. -/
def EndsLine (c : Char) (text : String) : Prop :=
  c = '\n' ∨ (c = '\r' ∧ text.toList.head? ≠ some '\n')

/-- The file with a character in front. -/
def SourceFile.withFront (c : Char) (file : SourceFile) : SourceFile :=
  { file with text := String.ofList (c :: file.text.toList) }

/-- Behind a line break in front, each line is preceded by a break where it used to start. -/
theorem breakOffsets_withFront {c : Char} {file : SourceFile} (h : EndsLine c file.text) :
    breakOffsets (file.withFront c).text = lineStarts file.text := by
  rw [SourceFile.withFront, breakOffsets, String.toList_ofList, Text.lineEnds_bytesOf_cons]
  exact if_pos h

theorem lastOffset_withFront {c : Char} {file : SourceFile} (h : EndsLine c file.text) :
    (file.withFront c).lastOffset = file.lastOffset + 1 := by
  have hsize : c.utf8Size = 1 := by
    rcases h with rfl | ⟨rfl, -⟩ <;> rfl
  rw [SourceFile.withFront, SourceFile.lastOffset, SourceFile.lastOffset, ← Text.byteLength_toList,
    String.toList_ofList, Text.byteLength_cons, Text.byteLength_toList, hsize]
  omega

/-! ### Where a fault starts -/

namespace Site

variable {module : Source.ModuleId} {file : SourceFile} {phase : Phase} {line column first : Nat}
  {c : Char}

/-- Where a fault that is located by its line and columns is reported to start. -/
def startAt? (s : Site) (message : String) (line column stopColumn : Int) : Option Int :=
  (s.diagnostic? (.located { message, line, startColumn := column, stopColumn })).map (·.start)

theorem startAt?_eq (s : Site) (message : String) (line column stopColumn : Int) :
    s.startAt? message line column stopColumn =
      some (min (s.offsetOf line column) s.lastOffset) := rfl

/-- The column itself is the offset on the first line, and it is counted from the first byte on all
others. -/
theorem startAt?_ofFile (h : IsColumn file.text line column first) (message : String)
    (stopColumn : Int) :
    (ofFile module file phase).startAt? message line column stopColumn =
      some (if line = 1 then min (column : Int) file.lastOffset else first + column - 1) := by
  obtain ⟨base, hbase, rfl⟩ := Text.lineStarts_getElem? h.first_eq
  have hsize := h.le_size
  have hlast : file.lastOffset = file.text.utf8ByteSize - 1 := rfl
  have hsite : (ofFile module file phase).lastOffset = file.lastOffset := rfl
  have hline := h.one_le_line
  rw [startAt?_eq, offsetOf_ofFile hline hbase, hsite, Option.some_inj]
  by_cases hfirst : line = 1
  · subst hfirst
    obtain rfl := Option.some.inj hbase
    simp
  · have hbehind : line - 1 ≠ 0 := by omega
    rw [if_neg hbehind] at hsize ⊢
    rw [if_neg hfirst]
    omega

/-- With a line break in front, the column counts from the first byte on each line. -/
theorem startAt?_withFront (h : IsColumn file.text line column first) (hc : EndsLine c file.text)
    (message : String) (stopColumn : Int) :
    (ofFile module (file.withFront c) phase).startAt? message (line + 1) column stopColumn =
      some (first + column) := by
  have hbase : (lineBases (file.withFront c).text)[line + 1 - 1]? = some first := by
    obtain ⟨n, rfl⟩ : ∃ n, line = n + 1 := ⟨line - 1, by have := h.one_le_line; omega⟩
    rw [lineBases, breakOffsets_withFront hc]
    exact h.first_eq
  have hsize := h.le_size
  have hlast : file.lastOffset = file.text.utf8ByteSize - 1 := rfl
  have hsite : (ofFile module (file.withFront c) phase).lastOffset = file.lastOffset + 1 :=
    lastOffset_withFront hc
  rw [startAt?_eq, ← Int.natCast_succ, offsetOf_ofFile (Nat.le_add_left 1 line) hbase, hsite]
  exact congrArg some (by omega)

/-- **Columns count from the first byte on all lines but the first**, where they count from the
second one. -/
theorem starts_at_column_iff (module : Source.ModuleId) (phase : Phase)
    (h : IsColumn file.text line column first) (hc : EndsLine c file.text) (message : String)
    (stopColumn : Int) :
    let s := ofFile module file phase
    let moved := ofFile module (file.withFront c) phase
    s.startAt? message line column stopColumn =
        some (if line = 1 then min (column : Int) file.lastOffset else first + column - 1) ∧
      (s.startAt? message line column stopColumn = some (first + column - 1 : Int) ↔
        line ≠ 1 ∨ (first + column - 1 : Int) = file.lastOffset) ∧
      (moved.startAt? message (line + 1) column stopColumn =
          (s.startAt? message line column stopColumn).map (· + 1) ↔
        line ≠ 1 ∨ (first + column - 1 : Int) = file.lastOffset) := by
  intro s moved
  have hsize := h.le_size
  have hlast : file.lastOffset = file.text.utf8ByteSize - 1 := rfl
  have hstart : s.startAt? message line column stopColumn = _ :=
    startAt?_ofFile h message stopColumn
  have hmoved : moved.startAt? message (line + 1) column stopColumn = _ :=
    startAt?_withFront h hc message stopColumn
  rw [hmoved, hstart, Option.map_some, Option.some_inj, Option.some_inj]
  refine ⟨rfl, ?_⟩
  by_cases hline : line = 1
  · -- the column is one too large for an offset, unless it is cut off at the end of the file
    subst hline
    obtain rfl := Option.some.inj h.first_eq
    simp
    omega
  · simp [hline]

end Site

/-! ### An example -/

/-- A file of three lines, with a fault on the second one. -/
def SourceFile.unfinished : SourceFile := ⟨"A.groovy", "class A \x7b\n  def x = \n\x7d\n"⟩

open SourceFile (unfinished)

/-- The bracket that is found on the third line instead of a value is reported at its own byte. -/
theorem Site.starts_at_column_iff_bracket :
    IsColumn unfinished.text 3 1 21 ∧ EndsLine '\n' unfinished.text ∧
      (ofFile ⟨1⟩ unfinished .conversion).startAt? "unexpected token: \x7d" 3 1 2 = some 21 ∧
      (ofFile ⟨1⟩ (unfinished.withFront '\n') .conversion).startAt? "unexpected token: \x7d" 4 1 2 =
        some 22 := by
  have h : IsColumn unfinished.text 3 1 21 :=
    ⟨by decide, by decide, by decide +kernel, by decide +kernel⟩
  have hc : EndsLine '\n' unfinished.text := .inl rfl
  obtain ⟨hstart, -, hmoved⟩ :=
    starts_at_column_iff ⟨1⟩ .conversion h hc "unexpected token: \x7d" 2
  exact ⟨h, hc, hstart, (hmoved.2 (.inl (by decide))).trans (congrArg _ hstart)⟩

/-- **The first byte of a file** is taken for the second one, and a line break in front of the file
does not move the diagnostic. -/
theorem Site.first_line_off_by_one :
    IsColumn unfinished.text 1 1 0 ∧ EndsLine '\n' unfinished.text ∧
      (ofFile ⟨1⟩ unfinished .conversion).startAt? "unexpected token: class" 1 1 6 ≠
        some (0 + 1 - 1) ∧
      (ofFile ⟨1⟩ (unfinished.withFront '\n') .conversion).startAt?
          "unexpected token: class" (1 + 1) 1 6 ≠
        ((ofFile ⟨1⟩ unfinished .conversion).startAt? "unexpected token: class" 1 1 6).map
          (· + 1) := by
  refine ⟨⟨by decide, by decide, by decide +kernel, by decide +kernel⟩, .inl rfl, ?_, ?_⟩ <;>
    decide +kernel

end HostBridge
