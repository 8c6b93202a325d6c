import HostBridge.Problem.Site
import HostBridge.Proofs.Text.Lines

/-!
# Two ways to locate a fault

The parser locates a fault in the text either by line and columns or by offsets, and in the second
case the line is counted anew, whatever line was reported. The two ways agree:
`Site.located_alike` says that line and columns computed from the offsets lead to the
diagnostic that the offsets lead to.

One way goes through the table of line breaks as far as the offset, `Site.lineOf_ofFile`; the other
one looks up the line break before the line, `Site.offsetOf_ofFile`. What ties them together is that
the table is ascending and complete, so that the breaks met on the way are those in front of the
offset, `Text.lineBreaks_eq`.
-/

namespace HostBridge

open Text (lineAt lineBases)

/-! ### Offsets and lines -/

namespace Site

variable {module : Source.ModuleId} {file : SourceFile} {phase : Phase}

theorem lineOf_ofFile (offset : Int) :
    (ofFile module file phase).lineOf offset = lineAt file.text offset := by
  rw [lineOf, ofFile, SourceFile.lineBreaks, Text.lineBreaks_eq, List.takeWhile_map,
    List.length_map, lineAt]
  exact congrArg (fun n : Nat => (n : Int) + 1)
    (Text.length_takeWhile_of_pairwise (Text.pairwise_breakOffsets_below file.text offset))

/-- The column of a line is added to what comes before the line. -/
theorem offsetOf_ofFile {line base : Nat} (hline : 1 ≤ line)
    (h : (lineBases file.text)[line - 1]? = some base) (column : Int) :
    (ofFile module file phase).offsetOf line column = base + column := by
  obtain ⟨n, rfl⟩ : ∃ n, line = n + 1 := ⟨line - 1, by omega⟩
  rw [Nat.add_sub_cancel, lineBases] at h
  cases n with
  | zero =>
    obtain rfl := Option.some.inj h
    exact (Int.zero_add column).symm
  | succ n =>
    have hplace : (((n + 1 + 1 : Nat) : Int) - 2).toNat = n := by omega
    rw [List.getElem?_cons_succ] at h
    rw [offsetOf, if_pos (by omega), hplace, ofFile, SourceFile.lineBreaks, Text.lineBreaks_eq,
      List.getElem?_map, h]
    rfl

/-! ### Two ways to locate a fault -/

/-- The range of a diagnostic is in the file and does not end before it starts. -/
theorem diagnose_range (s : Site) (f : Finding) :
    (s.diagnose f).start ≤ (s.diagnose f).stop ∧ (s.diagnose f).stop ≤ s.lastOffset := by
  simp only [diagnose]
  omega

/-- **A fault with offsets and one with line and columns** are reported alike, if line and columns
are those of the offsets: on the line of the first offset, and from the one offset to the other as
far as these are in the file and in order. -/
theorem located_alike (f : Source.LocatedFault) (start stop : Int) :
    let s := ofFile module file phase
    let line := lineAt file.text start
    ∃ base : Nat, (lineBases file.text)[line - 1]? = some base ∧
      ∃ d, s.diagnostic? (.located
          ({ f with startColumn := start - base }.precisely start stop)) = some d ∧
        s.diagnostic? (.located
          { f with
            line
            startColumn := start - base
            stopColumn := stop - base + 1
            precise := none }) = some d ∧
        d.line = line ∧ d.start = min start file.lastOffset ∧
        d.stop = min (max stop start) file.lastOffset ∧
        d.start ≤ d.stop ∧ d.stop ≤ file.lastOffset := by
  intro s line
  obtain ⟨base, hbase⟩ := Text.exists_lineBases_lineAt file.text start
  have hlocate : s.locate ({ f with startColumn := start - base }.precisely start stop) =
      ⟨f.message, line, start - base, start, stop⟩ := by
    simp only [locate, Source.LocatedFault.precisely, s, lineOf_ofFile, line]
  have hlocate' : s.locate { f with
      line
      startColumn := start - base
      stopColumn := stop - base + 1
      precise := none } = ⟨f.message, line, start - base, start, stop⟩ := by
    have hoffset : ∀ column, s.offsetOf line column = base + column :=
      offsetOf_ofFile (Nat.le_add_left 1 _) hbase
    simp only [locate, hoffset]
    congr 1 <;> omega
  refine ⟨base, hbase, s.diagnose ⟨f.message, line, start - base, start, stop⟩, ?_, ?_, rfl,
    rfl, rfl, s.diagnose_range _⟩
  · rw [diagnostic?, finding?, hlocate, Option.map_some]
  · rw [diagnostic?, finding?, hlocate', Option.map_some]

end Site

end HostBridge
