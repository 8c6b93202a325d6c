import HostBridge.Position

/-!
# Offsets take 32 bits

The host and the front end hold an offset in 32 bits with a sign. Here an offset is an integer, and
a sum of offsets is exact. The two agree as long as every sum that is computed on the way fits, not
only the last one. So beside an exact computation there may be one of the same steps that checks
just this: it gives up, `none`, at the first sum that takes more than 32 bits. What comes of a sum
that does not fit is left open.

What has to be known of such a computation is one fact in two parts, `IsChecked`: it gives nothing
but what the exact one gives, and it does not give up where there is room for its offsets. The fact
is found step by step, in the order in which the sums are computed:

* `IsChecked.fit`, `IsChecked.bind` — one sum, and one computation after the other;
* `IsChecked.mapM`, `IsChecked.foldlM` — a computation for each element of a list, and a run of
  steps that leave room for each other.
-/

namespace HostBridge.Offset

variable {α β σ : Type} {room room' : Prop} {x? : Option α} {x : α}

/-- **An offset that fits** in 32 bits with a sign. -/
def Fits (n : Int) : Prop := -0x80000000 ≤ n ∧ n < 0x80000000

instance : DecidablePred Fits := fun _ => inferInstanceAs (Decidable (_ ∧ _))

/-- The offset, unless it takes more than 32 bits. -/
def fit (n : Int) : Option Int := if Fits n then some n else none

/-- **A computation of `x` with its sums checked**: it gives nothing but `x`, and it does give it
where there is room. -/
structure IsChecked (room : Prop) (x? : Option α) (x : α) : Prop where
  exact : ∀ y, x? = some y → y = x
  succeeds : room → x? = some x

namespace IsChecked

theorem pure (room : Prop) (x : α) : IsChecked room (some x) x where
  exact _ hy := (Option.some.inj hy).symm
  succeeds _ := rfl

/-- One sum. -/
theorem fit (n : Int) (hfits : room → Fits n) : IsChecked room (Offset.fit n) n where
  exact y hy := by
    rw [Offset.fit] at hy
    split at hy
    · exact (Option.some.inj hy).symm
    · cases hy
  succeeds h := if_pos (hfits h)

/-- What needs less room does with more. -/
theorem mono (h : IsChecked room x? x) (hroom : room' → room) : IsChecked room' x? x where
  exact := h.exact
  succeeds h' := h.succeeds (hroom h')

/-- One computation after the other. -/
theorem bind {f : α → Option β} {y : β} (h : IsChecked room x? x) (hf : IsChecked room (f x) y) :
    IsChecked room (x? >>= f) y where
  exact z hz := by
    obtain ⟨x', hx', hz⟩ := Option.bind_eq_some_iff.1 hz
    -- the second computation has been given the exact result of the first
    obtain rfl := h.exact x' hx'
    exact hf.exact z hz
  succeeds hroom := by
    rw [h.succeeds hroom]
    exact hf.succeeds hroom

/-- One computation for each element of a list. -/
theorem mapM {l : List α} {f? : α → Option β} {f : α → β}
    (h : ∀ a ∈ l, IsChecked room (f? a) (f a)) : IsChecked room (l.mapM f?) (l.map f) := by
  induction l with
  | nil => exact pure room []
  | cons a l ih =>
    obtain ⟨hfirst, hrest⟩ := List.forall_mem_cons.1 h
    rw [List.mapM_cons, List.map_cons]
    exact hfirst.bind ((ih hrest).bind (pure room _))

/-- **A run of steps**, each of which leaves room for the next one. -/
theorem foldlM {Room : σ → Prop} {f? : σ → α → Option σ} {f : σ → α → σ}
    (hstep : ∀ s a, IsChecked (Room s) (f? s a) (f s a)) (hkeep : ∀ s a, Room s → Room (f s a))
    (l : List α) (s : σ) : IsChecked (Room s) (l.foldlM f? s) (l.foldl f s) := by
  induction l generalizing s with
  | nil => exact pure _ s
  | cons a l ih =>
    rw [List.foldlM_cons, List.foldl_cons]
    -- the later steps have room because the first one keeps it
    exact (hstep s a).bind ((ih (f s a)).mono (hkeep s a))

end IsChecked

end HostBridge.Offset
