import Mathlib.Data.List.Basic

/-!
# A list cut into segments of one size

A store into one segment is a store at that place of the list. The other segments do not
change. All segments together are the list.
-/

namespace Segment

variable {α : Type*} {size n i j k : Nat} {l : List α}

/-- The `i`-th segment of `size` elements. -/
def piece (size i : Nat) (l : List α) : List α := (l.drop (i * size)).take size

theorem getElem?_piece (inside : k < size) : (piece size i l)[k]? = l[i * size + k]? := by
  rw [piece, List.getElem?_take_of_lt inside, List.getElem?_drop]

theorem getElem?_segment_eq_none (outside : size ≤ k) : (piece size i l)[k]? = none := by
  rw [piece, List.getElem?_take_eq_none outside]

theorem add_lt_mul (inside : k < size) (hi : i < n) : i * size + k < n * size := by
  calc i * size + k < i * size + size := Nat.add_lt_add_left inside _
    _ = (i + 1) * size := (Nat.succ_mul i size).symm
    _ ≤ n * size := Nat.mul_le_mul_right size hi

theorem length_piece (whole : l.length = n * size) (hi : i < n) :
    (piece size i l).length = size := by
  have room : (i + 1) * size ≤ n * size := Nat.mul_le_mul_right size hi
  rw [Nat.succ_mul] at room
  rw [piece, List.length_take, List.length_drop]
  omega

theorem piece_set_self (c : α) :
    piece size i (l.set (i * size + k) c) = (piece size i l).set k c := by
  rw [piece, piece, List.drop_set, if_neg (by omega), Nat.add_sub_cancel_left, List.take_set]

theorem piece_set_of_ne (inside : k < size) (apart : j ≠ i) (c : α) :
    piece size j (l.set (i * size + k) c) = piece size j l := by
  apply List.ext_getElem?
  intro m
  obtain inRange | outside := Nat.lt_or_ge m size
  · rw [getElem?_piece inRange, getElem?_piece inRange, List.getElem?_set_ne]
    intro same
    apply apart
    have quotient := congrArg (· / size) same
    have positive : 0 < size := Nat.zero_lt_of_lt inside
    simpa [Nat.add_comm (_ * size), Nat.add_mul_div_right _ _ positive,
      Nat.div_eq_of_lt inside, Nat.div_eq_of_lt inRange, eq_comm] using quotient
  · rw [getElem?_segment_eq_none outside, getElem?_segment_eq_none outside]

theorem flatMap_piece (whole : l.length = n * size) :
    (List.range n).flatMap (fun i => piece size i l) = l := by
  have front (m : Nat) : (List.range m).flatMap (fun i => piece size i l) =
      l.take (m * size) := by
    induction m with
    | zero => simp
    | succ m ih =>
        rw [List.range_succ, List.flatMap_append, ih, List.flatMap_singleton, piece,
          Nat.succ_mul, List.take_add]
  rw [front n, ← whole, List.take_length]

end Segment
