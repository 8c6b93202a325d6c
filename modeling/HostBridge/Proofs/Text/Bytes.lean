import HostBridge.Text.Bytes

/-!
# Cutting texts by their bytes

No character is without bytes, so a beginning of a text is determined by the number of its bytes,
and of two beginnings the one with fewer bytes begins the other.

* `isPrefix_of_byteLength_le` — the shorter of two beginnings begins the longer one;
* `eq_of_byteLength_eq` — beginnings with the same number of bytes are the same.
-/

namespace HostBridge.Text

variable {cs ds text : List Char}

theorem byteLength_eq_zero : byteLength cs = 0 ↔ cs = [] := by
  cases cs with
  | nil => simp
  | cons c cs =>
    have := c.utf8Size_pos
    simp
    omega

/-- A beginning has no more bytes than the whole, and as many only if it is the whole. -/
theorem byteLength_lt_of_isPrefix (h : cs <+: ds) (hne : cs ≠ ds) :
    byteLength cs < byteLength ds := by
  obtain ⟨rest, rfl⟩ := h
  have hrest : byteLength rest ≠ 0 := by
    rw [Ne, byteLength_eq_zero]
    rintro rfl
    exact hne (List.append_nil cs).symm
  rw [byteLength_append]
  omega

theorem isPrefix_of_byteLength_le (hcs : cs <+: text) (hds : ds <+: text)
    (h : byteLength cs ≤ byteLength ds) : cs <+: ds := by
  rcases List.prefix_or_prefix_of_prefix hcs hds with hbegins | hbegins
  · exact hbegins
  · by_cases heq : ds = cs
    · exact heq ▸ List.prefix_rfl
    · have := byteLength_lt_of_isPrefix hbegins heq
      omega

theorem eq_of_byteLength_eq (hcs : cs <+: text) (hds : ds <+: text)
    (h : byteLength cs = byteLength ds) : cs = ds := by
  have hbegins := isPrefix_of_byteLength_le hcs hds (Nat.le_of_eq h)
  by_cases heq : cs = ds
  · exact heq
  · have := byteLength_lt_of_isPrefix hbegins heq
    omega

end HostBridge.Text
