import HostBridge.Text.Blank
import HostBridge.Text.Pieces

/-!
# Dotted names

A qualified name is written as segments joined by dots, with the package in front of the simple
name. This file splits such a name and joins it again.

* `Dotted.join_split` — the segments of a name, joined by dots, are the name;
* `Dotted.not_mem_of_mem_split` — no segment holds a dot;
* `Dotted.split_ne_nil` — a name has at least one segment, which may be empty.
-/

namespace HostBridge.Dotted

/-- The segments of a dotted name. -/
def split (name : String) : List String :=
  (Text.pieces '.' name.toList).map String.ofList

/-- The name whose segments are given. -/
def join (segments : List String) : String :=
  ".".intercalate segments

/-- The simple name: what follows the last dot, or the whole name if it has none. -/
def simpleName (name : String) : String :=
  String.ofList ((Text.pieces '.' name.toList).getLastD [])

/-- The name without the dots at its end. -/
def withoutTrailingDots (name : String) : String :=
  String.ofList (Text.dropTrailing (· == '.') name.toList)

/-! ### Splitting and joining -/

theorem split_ne_nil (name : String) : split name ≠ [] := by
  simp [split, Text.pieces_ne_nil]

theorem join_split (name : String) : join (split name) = name := by
  apply String.toList_inj.1
  rw [join, String.toList_intercalate, split, List.map_map]
  have : (String.toList ∘ String.ofList) = id := funext fun _ => String.toList_ofList
  rw [this, List.map_id]
  exact Text.intercalate_pieces '.' name.toList

theorem not_mem_of_mem_split {name segment : String} (h : segment ∈ split name) :
    '.' ∉ segment.toList := by
  obtain ⟨p, hp, rfl⟩ := List.mem_map.1 h
  rw [String.toList_ofList]
  exact Text.not_mem_of_mem_pieces hp

end HostBridge.Dotted
