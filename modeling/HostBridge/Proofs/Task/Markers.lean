import HostBridge.Proofs.Task.Offsets
import Mathlib.Data.List.Perm.Basic

/-!
# The markers of a comment

What the task scan returns, said in terms of the occurrences of the tags alone. Each occurrence has
its marker. Occurrences of which each starts one byte behind the tag before form a chain, and all of
the chain share the text of the last one. The end is that of this text unless an occurrence further
on starts before.

None of this mentions the order in which the tags are searched, so what the markers say does not
depend on it.

* `forall₂_isMarker` — the markers, one for each occurrence;
* `reading_perm` — what they say in whichever order the tags come;
* `scanComment_meaning` — both, with the occurrences that are found.
-/

namespace HostBridge.Task

open Offset (IsChecked)
open Relation (ReflTransGen)

variable {tags tags' : TaskTags} {c : Source.Comment} {os os' : List Occurrence}
  {o o' l l' : Occurrence}

/-! ### Chains of occurrences -/

/-- The second occurrence continues the first: it starts one byte behind the tag. -/
def Continuation (os : List Occurrence) (o o' : Occurrence) : Prop :=
  o' ∈ os ∧ o'.start = o.tagStop + 1

/-- **The last occurrence of a chain** that starts with `o` and cannot be prolonged. -/
structure IsLastOf (os : List Occurrence) (o l : Occurrence) : Prop where
  chain : ReflTransGen (Continuation os) o l
  last : ∀ o', ¬ Continuation os l o'

/-- All occurrences in a comment, without the places of their tags. -/
def occurrencesIn (tags : TaskTags) (c : Source.Comment) : List Occurrence :=
  (foundIn tags c).map (·.2)

/-- A chain of entries is a chain of occurrences. -/
theorem chain_of_continues {found : List (Nat × Occurrence)} {i j : Nat} {f : Nat × Occurrence}
    (h : ReflTransGen (Continues (found.map .ofFound)) i j) (hf : found[i]? = some f) :
    ∃ g, found[j]? = some g ∧ ReflTransGen (Continuation (found.map (·.2))) f.2 g.2 := by
  induction h with
  | refl => exact ⟨f, hf, .refl⟩
  | tail _ hnext ih =>
    obtain ⟨g, hg, hchain⟩ := ih
    obtain ⟨a, b, ha, hb, hstart⟩ := hnext
    rw [List.getElem?_map, Option.map_eq_some_iff] at ha hb
    obtain ⟨g', hg', rfl⟩ := ha
    obtain ⟨f', hf', rfl⟩ := hb
    obtain rfl := Option.some.inj (hg.symm.trans hg')
    exact ⟨f', hf', hchain.tail ⟨List.mem_map_of_mem (List.mem_of_getElem? hf'), hstart.symm⟩⟩

/-- In an entry without continuation a chain of occurrences ends. -/
theorem isLastOf_of_isLast {found : List (Nat × Occurrence)} {f g : Nat × Occurrence}
    (hchain : ReflTransGen (Continuation (found.map (·.2))) f.2 g.2)
    (hlast : IsLast (found.map .ofFound) (.ofFound g)) : IsLastOf (found.map (·.2)) f.2 g.2 where
  chain := hchain
  last o' ho' := by
    obtain ⟨f', hf', rfl⟩ := List.mem_map.1 ho'.1
    exact hlast _ (List.mem_map_of_mem hf') ho'.2.symm

/-- The order of the occurrences does not matter for the chains. -/
theorem IsLastOf.congr (hmem : ∀ o, o ∈ os ↔ o ∈ os') (h : IsLastOf os o l) : IsLastOf os' o l where
  chain := ReflTransGen.mono (fun _ o' ho' => ⟨(hmem o').1 ho'.1, ho'.2⟩) _ _ h.chain
  last o' ho' := h.last o' ⟨(hmem o').2 ho'.1, ho'.2⟩

/-- A chain has one end only where no two occurrences start at the same place. -/
theorem IsLastOf.unique (hstart : ∀ o ∈ os, ∀ o' ∈ os, o.start = o'.start → o = o')
    (h : IsLastOf os o l) (h' : IsLastOf os o l') : l = l' := by
  have hunique : Relator.RightUnique (Continuation os) := fun _ p q hp hq =>
    hstart p hp.1 q hq.1 (hp.2.trans hq.2.symm)
  -- one of the two ends is further on in the chain, and nothing continues the other
  rcases ReflTransGen.total_of_right_unique hunique h.chain h'.chain with hgo | hgo
  · exact (ReflTransGen.cases_head hgo).resolve_right fun ⟨q, hq, _⟩ => h.last q hq
  · exact ((ReflTransGen.cases_head hgo).resolve_right fun ⟨q, hq, _⟩ => h'.last q hq).symm

/-! ### Markers -/

/-- **What a marker says.** It stands for an occurrence and tells the text of the last one of its
chain, up to the nearest occurrence behind this one. -/
structure IsMarker (tags : TaskTags) (os : List Occurrence) (f : Nat × Occurrence)
    (m : TaskMarker) : Prop where
  tag : m.tag = f.2.tag
  priority : m.priority = tags.priority? f.1
  start : m.start = f.2.start
  text : ∃ l lead message, IsLastOf os f.2 l ∧ IsTask l.rest lead message ∧
    m.message = String.ofList message ∧
      m.stop = stopBefore (os.map (·.start)) l.start (l.lastByte lead message)

/-- **Each occurrence has its marker**, in the order of the occurrences. -/
theorem forall₂_isMarker (hwords : AreWords tags) (hfound : NonOverlapping (foundIn tags c)) :
    List.Forall₂ (IsMarker tags (occurrencesIn tags c)) (foundIn tags c) (scanComment tags c) := by
  have hspaced := spaced_entries hwords hfound
  have hlength : (settle (entries tags c)).length = (foundIn tags c).length := by
    rw [(settled_settle hspaced).1, entries_eq, List.length_map]
  refine List.forall₂_iff_get.2 ⟨?_, fun i hi hi' => ?_⟩
  · rw [scanComment, List.length_map, List.length_zipIdx, hlength]
  · have hentry : (settle (entries tags c))[i]? = some (settle (entries tags c))[i] :=
      List.getElem?_eq_getElem (hlength ▸ hi)
    have hf : (foundIn tags c)[i]? = some (foundIn tags c)[i] := List.getElem?_eq_getElem hi
    have hfirst : (entries tags c)[i]? = some (.ofFound (foundIn tags c)[i]) := by
      rw [entries_eq, List.getElem?_map, hf]
      rfl
    obtain ⟨j, b, hchain, hb, hlast, hmarker⟩ := marker_settle tags hspaced hfirst hentry
    -- the chain of entries ends with the entry of an occurrence
    rw [entries_eq] at hchain hb hlast
    obtain ⟨g, hg, hchain⟩ := chain_of_continues hchain hf
    rw [List.getElem?_map, hg] at hb
    obtain rfl := Option.some.inj hb
    have hstarts : (entries tags c).map (·.start) = (occurrencesIn tags c).map (·.start) := by
      rw [entries_eq, occurrencesIn, List.map_map, List.map_map]
      rfl
    simp only [List.get_eq_getElem, scanComment, List.getElem_map, List.getElem_zipIdx,
      Nat.zero_add, hmarker, hstarts]
    exact ⟨rfl, rfl, rfl, g.2, _, _, isLastOf_of_isLast hchain hlast, isTask_taskText g.2.rest, rfl,
      rfl⟩

/-! ### The order of the tags -/

/-- What a marker says apart from the priority, which depends on the place of its tag. -/
def reading (m : TaskMarker) : String × String × Int × Int := (m.tag, m.message, m.start, m.stop)

theorem IsMarker.congr {f : Nat × Occurrence} {m : TaskMarker} (hmem : ∀ o, o ∈ os ↔ o ∈ os')
    (h : IsMarker tags os f m) : IsMarker tags os' f m := by
  obtain ⟨l, lead, message, hlast, htask, hmessage, hstop⟩ := h.text
  have hstarts (s : Int) : s ∈ os.map (·.start) ↔ s ∈ os'.map (·.start) := by
    simp only [List.mem_map, hmem]
  rw [stopBefore_congr hstarts] at hstop
  exact ⟨h.tag, h.priority, h.start, l, lead, message, hlast.congr hmem, htask, hmessage, hstop⟩

/-- **The occurrences determine what their markers say**, whichever places their tags have. -/
theorem IsMarker.reading_eq {f f' : Nat × Occurrence} {m m' : TaskMarker}
    (hstart : ∀ o ∈ os, ∀ o' ∈ os, o.start = o'.start → o = o') (h : IsMarker tags os f m)
    (h' : IsMarker tags' os f' m') (hsame : f.2 = f'.2) : reading m = reading m' := by
  obtain ⟨l, lead, message, hlast, htask, hmessage, hstop⟩ := h.text
  obtain ⟨l', lead', message', hlast', htask', hmessage', hstop'⟩ := h'.text
  rw [← hsame] at hlast'
  obtain rfl := hlast.unique hstart hlast'
  obtain ⟨rfl, rfl⟩ := isTask_iff.1 htask
  obtain ⟨rfl, rfl⟩ := isTask_iff.1 htask'
  rw [reading, reading, h.tag, h'.tag, h.start, h'.start, hmessage, hmessage', hstop, hstop', hsame]

/-- What the marker of an occurrence says. -/
def Reads (os : List Occurrence) (o : Occurrence) (r : String × String × Int × Int) : Prop :=
  ∃ tags place m, IsMarker tags os (place, o) m ∧ r = reading m

/-- The occurrences of all tags are those of each, one tag after the other. -/
theorem occurrencesIn_eq (tags : TaskTags) (c : Source.Comment) :
    occurrencesIn tags c = tags.tags.flatMap (occurrencesOf tags.caseSensitive c) := by
  have hfst : tags.tags = tags.tags.zipIdx.map Prod.fst := List.zipIdx_map_fst 0 _ |>.symm
  rw [occurrencesIn, foundIn, List.map_flatMap]
  conv => rhs; rw [hfst, List.flatMap_map]
  refine congrArg (List.flatMap · _) (funext fun p => ?_)
  obtain ⟨tag, place⟩ := p
  rw [List.map_map]
  exact List.map_id _

/-- In whichever order the tags come, the same occurrences are found. -/
theorem occurrencesIn_perm (htags : tags'.tags.Perm tags.tags)
    (hcase : tags'.caseSensitive = tags.caseSensitive) :
    (occurrencesIn tags' c).Perm (occurrencesIn tags c) := by
  rw [occurrencesIn_eq, occurrencesIn_eq, hcase]
  exact htags.flatMap_right _

theorem nonOverlapping_iff (tags : TaskTags) (c : Source.Comment) :
    NonOverlapping (foundIn tags c) ↔ (occurrencesIn tags c).Pairwise Occurrence.Apart := by
  rw [NonOverlapping, occurrencesIn, List.pairwise_map]

theorem reads_scanComment (hwords : AreWords tags) (hfound : NonOverlapping (foundIn tags c)) :
    List.Forall₂ (Reads (occurrencesIn tags c)) (occurrencesIn tags c)
      ((scanComment tags c).map reading) := by
  have hmarkers := forall₂_isMarker hwords hfound
  rw [occurrencesIn, List.forall₂_map_left_iff, List.forall₂_map_right_iff]
  exact hmarkers.imp fun f m hm => ⟨tags, f.1, m, hm, rfl⟩

/-- Occurrences that start at the same place are the same. -/
theorem eq_of_start_eq (hwords : AreWords tags) (hfound : NonOverlapping (foundIn tags c))
    (ho : o ∈ occurrencesIn tags c) (ho' : o' ∈ occurrencesIn tags c) (h : o.start = o'.start) :
    o = o' := by
  obtain ⟨f, hf, rfl⟩ := List.mem_map.1 ho
  obtain ⟨f', hf', rfl⟩ := List.mem_map.1 ho'
  have htwo := (isIn_of_mem_foundIn hf).start_add_two_le hwords
  have htwo' := (isIn_of_mem_foundIn hf').start_add_two_le hwords
  rcases hfound.eq_or_apart hf hf' with rfl | hle | hle
  · rfl
  · omega
  · omega

/-- **What the markers say does not depend on the order of the tags.** -/
theorem reading_perm (hwords : AreWords tags) (hfound : NonOverlapping (foundIn tags c))
    (htags : tags'.tags.Perm tags.tags) (hcase : tags'.caseSensitive = tags.caseSensitive) :
    ((scanComment tags' c).map reading).Perm ((scanComment tags c).map reading) := by
  have hperm : (occurrencesIn tags' c).Perm (occurrencesIn tags c) := occurrencesIn_perm htags hcase
  have hwords' : AreWords tags' := fun tag htag => hwords tag (htags.mem_iff.1 htag)
  have hfound' : NonOverlapping (foundIn tags' c) := by
    rw [nonOverlapping_iff] at hfound ⊢
    exact hperm.symm.pairwise hfound fun h => Or.symm h
  have hmem (o : Occurrence) : o ∈ occurrencesIn tags' c ↔ o ∈ occurrencesIn tags c :=
    hperm.mem_iff
  -- the readings for the one order, arranged as for the other
  obtain ⟨rs, hrs, hsame⟩ := List.perm_comp_forall₂ hperm (reads_scanComment hwords hfound)
  have hrs' : List.Forall₂ (Reads (occurrencesIn tags c)) (occurrencesIn tags' c)
      ((scanComment tags' c).map reading) :=
    (reads_scanComment hwords' hfound').imp fun o r ⟨tags₀, place, m, hm, hr⟩ =>
      ⟨tags₀, place, m, hm.congr hmem, hr⟩
  have hunique : Relator.RightUnique (Reads (occurrencesIn tags c)) := by
    rintro o r r' ⟨tags₀, place, m, hm, rfl⟩ ⟨tags₁, place', m', hm', rfl⟩
    exact hm.reading_eq (fun o ho o' ho' => eq_of_start_eq hwords hfound ho ho') hm' rfl
  rwa [List.right_unique_forall₂' hunique hrs hrs'] at hsame

/-! ### The meaning of the scan -/

/-- **What the task scan returns for a comment** if the tags are words and their occurrences do not
overlap: a marker for each occurrence that is found, and what the markers say is the same in
whichever order the tags come. This is what the scan gives with the sums of its offsets checked, and
it does so if 32 bits have room for them. -/
theorem scanComment_meaning (hwords : AreWords tags) (hfound : NonOverlapping (foundIn tags c)) :
    (∀ tags', IsChecked c.Fits (scanComment? tags' c) (scanComment tags' c)) ∧
    IsFound tags c (foundIn tags c) ∧
    ∀ ms, scanComment? tags c = some ms →
      List.Forall₂ (IsMarker tags (occurrencesIn tags c)) (foundIn tags c) ms ∧
      ∀ tags' : TaskTags, tags'.tags.Perm tags.tags → tags'.caseSensitive = tags.caseSensitive →
        ∀ ms', scanComment? tags' c = some ms' → (ms'.map reading).Perm (ms.map reading) := by
  refine ⟨fun tags' => isChecked_scanComment tags' c, isFound_foundIn tags c, fun ms hms => ?_⟩
  obtain rfl := (isChecked_scanComment tags c).exact ms hms
  refine ⟨forall₂_isMarker hwords hfound, fun tags' htags hcase ms' hms' => ?_⟩
  obtain rfl := (isChecked_scanComment tags' c).exact ms' hms'
  exact reading_perm hwords hfound htags hcase

/-- A comment with two tags that stand next to each other and a third one further on. -/
def neighbours : Source.Comment where
  kind := .line
  text := "// TODO FIXME later XXX never"
  start := 100
  stop := 128
  firstLine := 1
  lastLine := 1

/-- The two neighbours share a text, and it ends where the third tag starts. -/
theorem scanComment_meaning_neighbours :
    AreWords {} ∧ NonOverlapping (foundIn {} neighbours) ∧
      IsFound {} neighbours (foundIn {} neighbours) ∧
      scanComment? {} neighbours = some
        [⟨"TODO", "later XXX never", some "NORMAL", 103, 119⟩,
          ⟨"FIXME", "later XXX never", some "HIGH", 108, 119⟩,
          ⟨"XXX", "never", some "NORMAL", 120, 128⟩] ∧
      List.Forall₂ (IsMarker {} (occurrencesIn {} neighbours)) (foundIn {} neighbours)
        (scanComment {} neighbours) ∧
      ((scanComment { tags := ["XXX", "FIXME", "TODO"] } neighbours).map reading).Perm
        ((scanComment {} neighbours).map reading) := by
  have hwords : AreWords {} := by decide +kernel
  have hfound : NonOverlapping (foundIn {} neighbours) := by decide +kernel
  obtain ⟨hchecked, hfoundIn, hmeaning⟩ := scanComment_meaning hwords hfound
  have hfits : neighbours.Fits := by decide +kernel
  obtain ⟨hmarkers, horder⟩ := hmeaning _ ((hchecked {}).succeeds hfits)
  have hscan : scanComment {} neighbours =
      [⟨"TODO", "later XXX never", some "NORMAL", 103, 119⟩,
        ⟨"FIXME", "later XXX never", some "HIGH", 108, 119⟩,
        ⟨"XXX", "never", some "NORMAL", 120, 128⟩] := by decide +kernel
  refine ⟨hwords, hfound, hfoundIn, ?_, hmarkers, ?_⟩
  · rw [← hscan]
    exact (hchecked {}).succeeds hfits
  · exact horder { tags := ["XXX", "FIXME", "TODO"] } (by decide) rfl _
      ((hchecked _).succeeds hfits)

end HostBridge.Task
