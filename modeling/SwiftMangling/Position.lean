/-!
Positions in a list. A position that is not negative counts from the front, a negative one from the
end, so that -1 is the last item.
-/

namespace SwiftMangling.Position

variable {α : Type}

/-- The same position, counted from the front; one that is still negative lies before it. -/
def fromFront (length : Nat) (position : Int) : Int :=
  if position < 0 then position + length else position

/-- How many items stand before a position, which is moved to the nearer end if it lies outside. -/
def before (length : Nat) (position : Int) : Nat :=
  min (fromFront length position).toNat length

/-- The item at a position. -/
def item? (items : List α) (position : Int) : Option α :=
  match fromFront items.length position with
  | .ofNat n => items[n]?
  | .negSucc _ => none

/-- The items from one position to another. -/
def slice (items : List α) (first last : Int) : List α :=
  (items.take (before items.length last)).drop (before items.length first)

theorem before_natCast (length n : Nat) : before length n = min n length := by
  simp [before, fromFront, show ¬(n : Int) < 0 by omega]

theorem slice_natCast (items : List α) (first last : Nat) :
    slice items first last = (items.take last).drop first := by
  have hlast : items.take (min last items.length) = items.take last :=
    List.take_eq_take_iff.2 (by omega)
  simp only [slice, before_natCast, hlast]
  rcases Nat.le_total first items.length with h | h
  · rw [Nat.min_eq_left h]
  · have hlen : (items.take last).length ≤ items.length := by
      rw [List.length_take]
      omega
    rw [Nat.min_eq_right h, List.drop_eq_nil_of_le hlen,
      List.drop_eq_nil_of_le (Nat.le_trans hlen h)]

end SwiftMangling.Position
