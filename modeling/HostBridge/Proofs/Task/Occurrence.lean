import HostBridge.Options
import HostBridge.Proofs.Text.Bytes
import HostBridge.Source.Module
import HostBridge.Task.Occurrence

/-!
# The occurrences of the tags

The occurrences of a tag are searched from left to right, and after each of them the search goes on
behind it. This file says which ones are found without saying how: they do not overlap, and each
place where the tag could be read lies in one of them, or else it would have been found.

* `occurrencesFrom_pairwise`, `exists_occurrencesFrom` — the occurrences of one tag;
* `isFound_foundIn` — the occurrences of all tags in a comment, tag by tag.
-/

namespace HostBridge.Task

variable {caseSensitive : Bool} {tag cs : List Char}

/-! ### Comparing characters -/

theorem toNat_toLower (c : Char) :
    c.toLower.toNat = if 65 ≤ c.toNat ∧ c.toNat ≤ 90 then c.toNat + 32 else c.toNat := by
  split
  · next hcode =>
    have hcapital : 65 ≤ c.val ∧ c.val ≤ 90 := by
      rw [UInt32.le_iff_toNat_le, UInt32.le_iff_toNat_le]
      exact hcode
    have hlower : c.toLower.val = c.val + 32 := congrArg Char.val (dif_pos hcapital)
    change c.toLower.val.toNat = _
    rw [hlower, UInt32.toNat_add]
    change (c.toNat + 32) % _ = _
    omega
  · next hcode =>
    have hother : ¬ (65 ≤ c.val ∧ c.val ≤ 90) := by
      rw [UInt32.le_iff_toNat_le, UInt32.le_iff_toNat_le]
      exact hcode
    have hsame : c.toLower = c := dif_neg hother
    rw [hsame]

/-- A letter takes as many bytes as a capital one. -/
theorem utf8Size_foldCase (caseSensitive : Bool) (c : Char) :
    (foldCase caseSensitive c).utf8Size = c.utf8Size := by
  rw [foldCase]
  split
  · rfl
  · by_cases hcode : 65 ≤ c.toNat ∧ c.toNat ≤ 90
    · have hlower := toNat_toLower c
      rw [if_pos hcode] at hlower
      have hsize : c.utf8Size = 1 := by
        rw [Char.utf8Size_eq_one_iff, UInt32.le_iff_toNat_le]
        change c.toNat ≤ 127
        omega
      rw [hsize, Char.utf8Size_eq_one_iff, UInt32.le_iff_toNat_le]
      change c.toLower.toNat ≤ 127
      omega
    · have hsame : c.toLower = c := by
        rw [← Char.toNat_inj, toNat_toLower, if_neg hcode]
      rw [hsame]

/-- A text takes as many bytes as the copy that is compared. -/
theorem byteLength_map_foldCase (caseSensitive : Bool) (cs : List Char) :
    Text.byteLength (cs.map (foldCase caseSensitive)) = Text.byteLength cs := by
  induction cs with
  | nil => rfl
  | cons c cs ih =>
    rw [List.map_cons, Text.byteLength_cons, Text.byteLength_cons, ih, utf8Size_foldCase]

/-- Texts that are equal for a comparison have the same number of bytes. -/
theorem byteLength_eq_of_map_foldCase {found : List Char}
    (h : found.map (foldCase caseSensitive) = tag.map (foldCase caseSensitive)) :
    Text.byteLength found = Text.byteLength tag := by
  rw [← byteLength_map_foldCase caseSensitive found, h, byteLength_map_foldCase]

theorem length_eq_of_map_foldCase {found : List Char}
    (h : found.map (foldCase caseSensitive) = tag.map (foldCase caseSensitive)) :
    found.length = tag.length := by
  simpa only [List.length_map] using congrArg List.length h

/-! ### The occurrences of one tag -/

theorem map_take_of_beginsWith (h : beginsWith caseSensitive tag cs = true) :
    (cs.take tag.length).map (foldCase caseSensitive) = tag.map (foldCase caseSensitive) := by
  have hfront := List.isPrefixOf_iff_prefix.1 h
  have hlength : (cs.take tag.length).length ≤ tag.length := by
    rw [List.length_take]
    exact Nat.min_le_left _ _
  exact (hfront.eq_of_length_le (by simpa only [List.length_map] using hlength)).symm

/-- A tag begins what it stands in front of. -/
theorem beginsWith_append {found rest : List Char}
    (h : found.map (foldCase caseSensitive) = tag.map (foldCase caseSensitive)) :
    beginsWith caseSensitive tag (found ++ rest) = true := by
  rw [beginsWith, List.isPrefixOf_iff_prefix, ← length_eq_of_map_foldCase h, List.take_left]
  exact h ▸ List.prefix_rfl

/-- What belongs to the occurrence before is skipped. -/
theorem le_of_mem_occurrencesFrom {offset skip : Nat} {o : Nat × List Char}
    (h : o ∈ occurrencesFrom caseSensitive tag offset skip cs) :
    offset + Text.byteLength (cs.take skip) ≤ o.1 := by
  induction cs generalizing offset skip with
  | nil => exact absurd h List.not_mem_nil
  | cons c cs ih =>
    rw [occurrencesFrom] at h
    split at h
    · next hmatch =>
      rw [hmatch.1, List.take_zero, Text.byteLength_nil, Nat.add_zero]
      rcases List.mem_cons.1 h with rfl | h
      · exact Nat.le_refl _
      · have := ih h
        omega
    · have := ih h
      cases skip with
      | zero =>
        rw [List.take_zero, Text.byteLength_nil]
        omega
      | succ skip =>
        rw [Nat.add_sub_cancel] at this
        rw [List.take_succ_cons, Text.byteLength_cons]
        omega

/-- The occurrences of a tag are found from left to right and do not overlap. -/
theorem occurrencesFrom_pairwise (caseSensitive : Bool) (tag : List Char) (offset skip : Nat)
    (cs : List Char) :
    (occurrencesFrom caseSensitive tag offset skip cs).Pairwise fun o o' =>
      o.1 + Text.byteLength tag ≤ o'.1 := by
  induction cs generalizing offset skip with
  | nil => exact .nil
  | cons c cs ih =>
    rw [occurrencesFrom]
    split
    · next hmatch =>
      refine List.pairwise_cons.2 ⟨fun o ho => ?_, ih _ _⟩
      -- the search goes on behind the tag
      have hlater := le_of_mem_occurrencesFrom ho
      have hbytes := byteLength_eq_of_map_foldCase (map_take_of_beginsWith hmatch.2)
      cases hlength : tag.length with
      | zero =>
        rw [hlength, List.take_zero, Text.byteLength_nil] at hbytes
        omega
      | succ n =>
        rw [hlength, List.take_succ_cons, Text.byteLength_cons] at hbytes
        rw [hlength, Nat.add_sub_cancel] at hlater
        dsimp only
        omega
    · exact ih _ _

/-- What ends inside a tag has fewer bytes than the tag. -/
theorem byteLength_lt_of_length_lt {before rest : List Char}
    (hbegins : beginsWith caseSensitive tag (before ++ rest) = true)
    (h : before.length < tag.length) : Text.byteLength before < Text.byteLength tag := by
  have hmap := map_take_of_beginsWith hbegins
  have hlength := length_eq_of_map_foldCase hmap
  rw [← byteLength_eq_of_map_foldCase hmap]
  refine Text.byteLength_lt_of_isPrefix ?_ fun heq => ?_
  · exact List.prefix_of_prefix_length_le (List.prefix_append before rest)
      (List.take_prefix _ _) (by omega)
  · rw [← heq] at hlength
    omega

/-- **Each place where the tag can be read** lies in an occurrence, unless it is skipped. -/
theorem exists_occurrencesFrom (htag : tag ≠ []) {found : List Char} (rest : List Char)
    (hfound : found.map (foldCase caseSensitive) = tag.map (foldCase caseSensitive))
    (offset : Nat) {skip : Nat} {before : List Char} (hskip : skip ≤ before.length) :
    ∃ o ∈ occurrencesFrom caseSensitive tag offset skip (before ++ found ++ rest),
      o.1 ≤ offset + Text.byteLength before ∧
        offset + Text.byteLength before < o.1 + Text.byteLength tag := by
  have hbytes : 0 < Text.byteLength tag :=
    Nat.pos_of_ne_zero fun hzero => htag (Text.byteLength_eq_zero.1 hzero)
  induction before generalizing offset skip with
  | nil =>
    -- the tag itself comes next
    obtain rfl := Nat.le_zero.1 hskip
    have hbegins : beginsWith caseSensitive tag (found ++ rest) = true :=
      beginsWith_append hfound
    cases hcs : found ++ rest with
    | nil =>
      have hnil := (List.append_eq_nil_iff.1 hcs).1
      rw [hnil] at hfound
      exact absurd (List.map_eq_nil_iff.1 hfound.symm) htag
    | cons c cs =>
      rw [hcs] at hbegins
      rw [List.nil_append, hcs, occurrencesFrom, if_pos ⟨rfl, hbegins⟩]
      exact ⟨_, List.mem_cons_self, by simp, by simpa using hbytes⟩
  | cons c before ih =>
    have hbehind (n : Nat) (hn : n ≤ before.length) :
        ∃ o ∈ occurrencesFrom caseSensitive tag (offset + c.utf8Size) n (before ++ found ++ rest),
          o.1 ≤ offset + Text.byteLength (c :: before) ∧
            offset + Text.byteLength (c :: before) < o.1 + Text.byteLength tag := by
      obtain ⟨o, ho, hle, hlt⟩ := ih (offset + c.utf8Size) hn
      rw [Text.byteLength_cons, ← Nat.add_assoc]
      exact ⟨o, ho, hle, hlt⟩
    rw [List.cons_append, List.cons_append, occurrencesFrom]
    split
    · next hmatch =>
      by_cases hinside : tag.length - 1 ≤ before.length
      · obtain ⟨o, ho, hplace⟩ := hbehind _ hinside
        exact ⟨o, List.mem_cons_of_mem _ ho, hplace⟩
      · -- the place is inside the occurrence that starts here
        have hlt : Text.byteLength (c :: before) < Text.byteLength tag := by
          have hbegins :
              beginsWith caseSensitive tag ((c :: before) ++ (found ++ rest)) = true := by
            rw [List.cons_append, ← List.append_assoc]
            exact hmatch.2
          refine byteLength_lt_of_length_lt hbegins ?_
          rw [List.length_cons]
          omega
        refine ⟨_, List.mem_cons_self, ?_, ?_⟩ <;> dsimp only <;> omega
    · rw [List.length_cons] at hskip
      exact hbehind (skip - 1) (by omega)

/-! ### The occurrences of all tags -/

/-- An occurrence of a tag in a comment. -/
structure Occurrence where
  tag : String
  /-- The offset of the first byte in the file. -/
  start : Int
  /-- The text of the comment behind the tag. -/
  rest : List Char

/-- The offset just past the tag. -/
def Occurrence.tagStop (o : Occurrence) : Int := o.start + o.tag.utf8ByteSize

/-- **Where a tag can be read.** The comment consists of what precedes the tag, the tag, and what
follows it, where the case of letters does not count unless it is said to. -/
structure Occurrence.IsIn (tags : TaskTags) (c : Source.Comment) (place : Nat) (o : Occurrence) :
    Prop where
  tag_eq : tags.tags[place]? = some o.tag
  nonempty : o.tag ≠ ""
  split : ∃ before found, c.text.toList = before ++ found ++ o.rest ∧
    o.start = c.start + Text.byteLength before ∧
    found.map (foldCase tags.caseSensitive) = o.tag.toList.map (foldCase tags.caseSensitive)

/-- The occurrences of a tag in a comment. -/
def occurrencesOf (caseSensitive : Bool) (c : Source.Comment) (tag : String) : List Occurrence :=
  (occurrences caseSensitive tag c.text).map fun o => ⟨tag, c.start + o.1, o.2⟩

/-- The occurrences of all tags in a comment, each with the place of its tag. -/
def foundIn (tags : TaskTags) (c : Source.Comment) : List (Nat × Occurrence) :=
  tags.tags.zipIdx.flatMap fun (tag, place) =>
    (occurrencesOf tags.caseSensitive c tag).map fun o => (place, o)

/-- **The occurrences that are found**: tag by tag, those of each tag from left to right without
overlaps, and so that each place where a tag can be read lies in an occurrence of this tag that does
not start behind it. -/
structure IsFound (tags : TaskTags) (c : Source.Comment) (found : List (Nat × Occurrence)) :
    Prop where
  isIn : ∀ f ∈ found, f.2.IsIn tags c f.1
  ordered : found.Pairwise fun f f' => f.1 < f'.1 ∨ f.1 = f'.1 ∧ f.2.tagStop ≤ f'.2.start
  complete : ∀ place (o : Occurrence), o.IsIn tags c place →
    ∃ f ∈ found, f.1 = place ∧ f.2.start ≤ o.start ∧ o.start < f.2.tagStop

section All

variable {tags : TaskTags} {c : Source.Comment} {place : Nat} {o : Occurrence}

theorem mem_occurrencesOf {tag : String} :
    o ∈ occurrencesOf caseSensitive c tag ↔ o.tag = tag ∧
      ∃ p ∈ occurrences caseSensitive tag c.text, o.start = c.start + p.1 ∧ o.rest = p.2 := by
  rw [occurrencesOf, List.mem_map]
  constructor
  · rintro ⟨p, hp, rfl⟩
    exact ⟨rfl, p, hp, rfl, rfl⟩
  · rintro ⟨rfl, p, hp, hstart, hrest⟩
    exact ⟨p, hp, by rw [← hstart, ← hrest]⟩

theorem mem_foundIn {f : Nat × Occurrence} : f ∈ foundIn tags c ↔
    tags.tags[f.1]? = some f.2.tag ∧ f.2 ∈ occurrencesOf tags.caseSensitive c f.2.tag := by
  rw [foundIn, List.mem_flatMap]
  constructor
  · rintro ⟨⟨tag, place⟩, htag, hf⟩
    obtain ⟨o, ho, rfl⟩ := List.mem_map.1 hf
    obtain ⟨rfl, -⟩ := mem_occurrencesOf.1 ho
    exact ⟨List.mem_zipIdx_iff_getElem?.1 htag, ho⟩
  · rintro ⟨htag, ho⟩
    exact ⟨(f.2.tag, f.1), List.mem_zipIdx_iff_getElem?.2 htag, List.mem_map.2 ⟨f.2, ho, rfl⟩⟩

theorem isIn_of_mem_foundIn {f : Nat × Occurrence} (h : f ∈ foundIn tags c) :
    f.2.IsIn tags c f.1 := by
  obtain ⟨htag, ho⟩ := mem_foundIn.1 h
  obtain ⟨-, p, hp, hstart, hrest⟩ := mem_occurrencesOf.1 ho
  obtain ⟨before, found, htext, hoffset, hfound⟩ := split_of_mem_occurrences hp
  refine ⟨htag, fun hempty => ?_, before, found, hrest ▸ htext, hoffset ▸ hstart, hfound⟩
  -- an empty tag is not searched
  rw [hempty] at hp
  exact absurd hp List.not_mem_nil

/-- The occurrences of one tag come from left to right. -/
theorem occurrencesOf_pairwise (caseSensitive : Bool) (c : Source.Comment) (tag : String) :
    (occurrencesOf caseSensitive c tag).Pairwise fun o o' => o.tagStop ≤ o'.start := by
  rw [occurrencesOf, List.pairwise_map, occurrences]
  split
  · exact .nil
  · refine (occurrencesFrom_pairwise caseSensitive tag.toList 0 0 c.text.toList).imp
      fun {p p'} hle => ?_
    rw [Text.byteLength_toList] at hle
    dsimp only [Occurrence.tagStop]
    omega

theorem isFound_foundIn (tags : TaskTags) (c : Source.Comment) :
    IsFound tags c (foundIn tags c) where
  isIn f hf := isIn_of_mem_foundIn hf
  ordered := by
    rw [foundIn, List.pairwise_flatMap]
    constructor
    · rintro ⟨tag, place⟩ -
      rw [List.pairwise_map]
      exact (occurrencesOf_pairwise _ c tag).imp fun hle => Or.inr ⟨rfl, hle⟩
    · rw [List.pairwise_iff_getElem]
      intro i j hi hj hlt f hf f' hf'
      obtain ⟨o, -, rfl⟩ := List.mem_map.1 hf
      obtain ⟨o', -, rfl⟩ := List.mem_map.1 hf'
      left
      simpa only [List.get_eq_getElem, List.getElem_zipIdx, Nat.zero_add] using hlt
  complete place o ho := by
    obtain ⟨before, found, htext, hstart, hfound⟩ := ho.split
    have htag : o.tag.toList ≠ [] := fun hnil => ho.nonempty (String.toList_eq_nil_iff.1 hnil)
    obtain ⟨p, hp, hle, hlt⟩ :=
      exists_occurrencesFrom htag o.rest hfound 0 (Nat.zero_le before.length)
    rw [← htext] at hp
    have hmem : p ∈ occurrences tags.caseSensitive o.tag c.text := by
      rw [occurrences, if_neg fun hempty => ho.nonempty (String.isEmpty_iff.1 hempty)]
      exact hp
    refine ⟨(place, ⟨o.tag, c.start + p.1, p.2⟩),
      mem_foundIn.2 ⟨ho.tag_eq, mem_occurrencesOf.2 ⟨rfl, p, hmem, rfl, rfl⟩⟩, rfl, ?_, ?_⟩
    · dsimp only
      omega
    · rw [Text.byteLength_toList] at hlt
      dsimp only [Occurrence.tagStop]
      omega

end All

end HostBridge.Task
