import HostBridge.Text.Dotted
import Mathlib.Data.List.TakeWhile

/-!
# Laws of dotted names

Splitting and joining are inverse to each other on segments without dots, so a dotted name and its
segments determine each other:

* `Dotted.split_join` — the segments of joined segments are the segments, if none of them holds a
  dot;
* `Dotted.eq_simpleName_or` — a name is its simple name, or a package and a dot and its simple name;
* `Dotted.withoutTrailingDots_spec` — a name without the dots at its end.

The other facts compute the simple name of a name that is put together from parts. Everything rests
on `Text.pieces_eq_splitOn`, which says that cutting a text is the splitting of lists of the
standard library.
-/

namespace HostBridge

/-- The pieces of a text are the sublists between the occurrences of the separator. -/
theorem Text.pieces_eq_splitOn (sep : Char) (cs : List Char) :
    Text.pieces sep cs = cs.splitOn sep := by
  induction cs with
  | nil => simp [Text.pieces]
  | cons c cs ih =>
    rw [Text.pieces, List.splitOn_cons_eq_if_modifyHead, ih]
    by_cases h : c = sep
    · simp [h]
    · obtain ⟨p, ps, hp⟩ := List.exists_cons_of_ne_nil (List.splitOn_ne_nil sep cs)
      simp [h, hp]

namespace Dotted

/-! ### Segments -/

/-- **Joining and splitting.** Segments without dots are found again in the name that joins them. -/
theorem split_join {segments : List String} (hne : segments ≠ [])
    (hdot : ∀ s ∈ segments, '.' ∉ s.toList) : split (join segments) = segments := by
  have hdot' : ∀ l ∈ segments.map String.toList, '.' ∉ l := by
    intro l hl
    obtain ⟨s, hs, rfl⟩ := List.mem_map.1 hl
    exact hdot s hs
  have hpieces : Text.pieces '.' (join segments).toList = segments.map String.toList := by
    rw [Text.pieces_eq_splitOn, join, String.toList_intercalate]
    exact List.splitOn_intercalate '.' hdot' (by simpa using hne)
  rw [split, hpieces, List.map_map]
  exact List.map_id'' (fun s => String.ofList_toList) segments

/-- A name with a package in front of it. -/
theorem join_append_singleton {segments : List String} (hne : segments ≠ []) (s : String) :
    join (segments ++ [s]) = join segments ++ "." ++ s := by
  rw [join, String.intercalate_append_of_ne_nil hne (by simp), String.intercalate_singleton, join]

/-! ### Simple names -/

theorem getLast?_split (name : String) : (split name).getLast? = some (simpleName name) := by
  rw [split, simpleName, List.getLast?_map, List.getLastD_eq_getLast?]
  rw [List.getLast?_eq_some_getLast (Text.pieces_ne_nil '.' name.toList)]
  rfl

/-- A simple name holds no dot. -/
theorem not_mem_simpleName (name : String) : '.' ∉ (simpleName name).toList :=
  not_mem_of_mem_split (List.mem_of_getLast? (getLast?_split name))

/-- **A name is its simple name, if need be with a package in front.** -/
theorem eq_simpleName_or (name : String) :
    name = simpleName name ∨ ∃ package, name = package ++ "." ++ simpleName name := by
  obtain ⟨init, hinit⟩ := List.getLast?_eq_some_iff.1 (getLast?_split name)
  have hjoin := join_split name
  rw [hinit] at hjoin
  by_cases hnil : init = []
  · left
    rw [hnil, List.nil_append, join, String.intercalate_singleton] at hjoin
    exact hjoin.symm
  · right
    rw [join_append_singleton hnil] at hjoin
    exact ⟨join init, hjoin.symm⟩

theorem simpleName_of_not_mem {s : String} (hs : '.' ∉ s.toList) : simpleName s = s := by
  rw [simpleName, Text.pieces_eq_splitOn, List.splitOn_eq_singleton hs]
  exact String.ofList_toList

/-- The package in front of a simple name does not count. -/
theorem simpleName_dot_append (package : String) {s : String} (hs : '.' ∉ s.toList) :
    simpleName (package ++ "." ++ s) = s := by
  have hlist : (package ++ "." ++ s).toList = package.toList ++ '.' :: s.toList := by simp
  rw [simpleName, hlist, Text.pieces_eq_splitOn, List.splitOn_append_cons_self,
    List.splitOn_eq_singleton hs, List.getLastD_eq_getLast?, List.getLast?_append]
  exact String.ofList_toList

/-- What is written after a name without a dot belongs to the simple name. -/
theorem simpleName_append (name : String) {t : String} (ht : '.' ∉ t.toList) :
    simpleName (name ++ t) = simpleName name ++ t := by
  have hdot : '.' ∉ (simpleName name ++ t).toList := by
    rw [String.toList_append, List.mem_append, not_or]
    exact ⟨not_mem_simpleName name, ht⟩
  rcases eq_simpleName_or name with h | ⟨package, h⟩
  · rw [← h] at hdot ⊢
    exact simpleName_of_not_mem hdot
  · have happ : name ++ t = package ++ "." ++ (simpleName name ++ t) :=
      (congrArg (· ++ t) h).trans (String.append_assoc ..)
    rw [happ]
    exact simpleName_dot_append package hdot

/-! ### Dots at the end -/

/-- **What is cut off at the end of a name** is nothing but dots, and all of them. -/
theorem withoutTrailingDots_spec (name : String) :
    (∃ dots, name.toList = (withoutTrailingDots name).toList ++ List.replicate dots '.') ∧
      (withoutTrailingDots name).toList.getLast? ≠ some '.' := by
  rw [withoutTrailingDots, String.toList_ofList]
  constructor
  · have hdots : ∀ d ∈ Text.takeTrailing (· == '.') name.toList, d = '.' := by
      intro d hd
      rw [Text.takeTrailing, List.mem_reverse] at hd
      have hdot := List.mem_takeWhile_imp hd
      exact eq_of_beq hdot
    refine ⟨(Text.takeTrailing (· == '.') name.toList).length, ?_⟩
    rw [← List.eq_replicate_of_mem hdots, Text.dropTrailing_append]
  · intro hlast
    have hne : Text.dropTrailing (· == '.') name.toList ≠ [] := fun hnil => by
      rw [hnil] at hlast
      cases hlast
    have hdot := Text.dropTrailing_getLast (· == '.') name.toList hne
    rw [List.getLast?_eq_some_getLast hne, Option.some.injEq] at hlast
    rw [hlast] at hdot
    cases hdot

end Dotted

end HostBridge
