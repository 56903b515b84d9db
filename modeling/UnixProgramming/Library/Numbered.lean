import Mathlib.Data.List.Perm.Basic
import Mathlib.Data.List.Range

/-!
# Numbered items on a channel that loses some of them

Items are numbered in the order in which they are sent. Some arrive, in this order, some are
still on their way, and some are lost. So each item is late by the losses before it.
-/

namespace Numbered

/-- Of the items with the numbers below `n`, `arrived` have arrived and `lost` were lost, each in
the order of the events, and `waiting` are on their way. -/
structure Stream (arrived waiting lost : List Nat) (n : Nat) : Prop where
  all : (arrived ++ waiting ++ lost).Perm (List.range n)
  order : (arrived ++ waiting).Pairwise (· < ·)

theorem countP_range {k n : Nat} (below : k < n) : (List.range n).countP (· < k) = k := by
  have split : List.range n = List.range k ++ (List.range (n - k)).map (k + ·) := by
    rw [← List.range_add, Nat.add_sub_cancel' below.le]
  have first : (List.range k).countP (· < k) = k := by
    rw [List.countP_eq_length.mpr, List.length_range]
    intro a mem
    exact decide_eq_true (List.mem_range.mp mem)
  have rest : ((List.range (n - k)).map (k + ·)).countP (· < k) = 0 := by
    rw [List.countP_eq_zero]
    simp
  rw [split, List.countP_append, first, rest, Nat.add_zero]

namespace Stream

variable {arrived waiting front back lost : List Nat} {n i k : Nat}

theorem empty : Stream [] [] [] 0 := ⟨.refl _, .nil⟩

theorem lt (stream : Stream arrived waiting lost n) (mem : k ∈ arrived ++ waiting) : k < n :=
  List.mem_range.mp (stream.all.mem_iff.mp (List.mem_append_left _ mem))

theorem send (stream : Stream arrived waiting lost n) :
    Stream arrived (waiting ++ [n]) lost (n + 1) := by
  constructor
  · rw [List.range_succ, ← List.append_assoc, List.append_assoc _ [n]]
    exact (List.Perm.append_left _ List.perm_append_comm).trans
      ((List.append_assoc .. ▸ List.Perm.append_right [n] stream.all))
  · rw [← List.append_assoc, List.pairwise_append]
    refine ⟨stream.order, List.pairwise_singleton .., ?_⟩
    intro a mem b last
    rw [List.mem_singleton.mp last]
    exact stream.lt mem

theorem arrive (stream : Stream arrived (k :: waiting) lost n) :
    Stream (arrived ++ [k]) waiting lost n := by
  constructor
  · simpa using stream.all
  · simpa using stream.order

theorem lose (stream : Stream arrived (front ++ k :: back) lost n) :
    Stream arrived (front ++ back) (lost ++ [k]) n := by
  constructor
  · refine List.perm_iff_count.mpr fun a => ?_
    have all := stream.all.count_eq a
    simp only [List.count_append, List.count_cons, List.count_nil] at all ⊢
    omega
  · have fewer : (front ++ back).Sublist (front ++ k :: back) :=
      (List.sublist_cons_self k back).append_left front
    exact stream.order.sublist (fewer.append_left arrived)

/-- The items below an item that has arrived are those that have arrived before it, and those
that were lost. -/
theorem number_eq (stream : Stream arrived waiting lost n) (at_ : arrived[i]? = some k) :
    k = i + lost.countP (· < k) := by
  obtain ⟨inside, at_⟩ := List.getElem?_eq_some_iff.mp at_
  have split : arrived = arrived.take i ++ k :: arrived.drop (i + 1) := by
    rw [← at_, ← List.drop_eq_getElem_cons inside, List.take_append_drop]
  have order := stream.order
  rw [split, List.append_assoc, List.cons_append, List.pairwise_append] at order
  obtain ⟨-, later, earlier⟩ := order
  have before : (arrived.take i).countP (· < k) = i := by
    rw [List.countP_eq_length.mpr, List.length_take_of_le inside.le]
    intro a mem
    exact decide_eq_true (earlier a mem k List.mem_cons_self)
  have behind : (k :: (arrived.drop (i + 1) ++ waiting)).countP (· < k) = 0 := by
    rw [List.countP_eq_zero]
    intro a mem
    obtain rfl | mem := List.mem_cons.mp mem
    · simp
    · simpa using ((List.pairwise_cons.mp later).1 a mem).le
  have all := stream.all.countP_eq (· < k)
  have bound : k < n := stream.lt (List.mem_append_left _ (at_ ▸ List.getElem_mem inside))
  rw [countP_range bound, List.countP_append, split, List.append_assoc, List.cons_append,
    List.countP_append, before, behind] at all
  omega

end Stream

end Numbered
