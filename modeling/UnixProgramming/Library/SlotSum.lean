import Mathlib.Algebra.BigOperators.Group.Finset.Piecewise

/-!
# Sums over the slots of a table

A table gives each slot a share of a total. Changing one slot exchanges its share.
The total is in any commutative monoid: a number of slots in use, or the multiset
of what the slots hold.
-/

namespace SlotSum

variable {ι α M : Type*} [DecidableEq ι]

theorem share_update (share : α → M) (slots : ι → α) (i : ι) (a : α) :
    (fun j => share (Function.update slots i a j)) =
      Function.update (fun j => share (slots j)) i (share a) :=
  Function.comp_update share slots i a

variable [Fintype ι] [AddCommMonoid M]

/-- The total of all shares. -/
def total (share : α → M) (slots : ι → α) : M := ∑ i, share (slots i)

omit [DecidableEq ι] in
theorem total_eq_zero {share : α → M} {slots : ι → α} (h : ∀ i, share (slots i) = 0) :
    total share slots = 0 :=
  Finset.sum_eq_zero fun i _ => h i

/-- The new share comes in and the old one goes out. -/
theorem total_update (share : α → M) (slots : ι → α) (i : ι) (a : α) :
    total share (Function.update slots i a) + share (slots i) = total share slots + share a := by
  have rest := Finset.add_sum_erase Finset.univ (fun j => share (slots j)) (Finset.mem_univ i)
  rw [total, share_update, Finset.sum_update_of_mem (Finset.mem_univ i),
    Finset.sdiff_singleton_eq_erase, total, ← rest]
  ac_rfl

theorem total_update_of_eq {share : α → M} {slots : ι → α} {i : ι} {a : α}
    (same : share a = share (slots i)) :
    total share (Function.update slots i a) = total share slots := by
  rw [total, share_update, same, Function.update_eq_self, total]

variable {share : α → M} {slots : ι → α} {i : ι} {a : α} {log t whole : M}

/-- A share that goes from its slot to a log stays in the sum of both. -/
theorem log_add_total_update (sum : log + total share slots = whole) (out : share (slots i) = t)
    (empty : share a = 0) : (log + t) + total share (Function.update slots i a) = whole := by
  have exchange := total_update share slots i a
  rw [out, empty, add_zero] at exchange
  rw [add_assoc, add_comm t, exchange, sum]

/-- A share that comes into an empty slot comes into the sum. -/
theorem add_total_update_new (sum : log + total share slots = whole) (empty : share (slots i) = 0)
    (in_ : share a = t) : log + total share (Function.update slots i a) = whole + t := by
  have exchange := total_update share slots i a
  rw [empty, add_zero, in_] at exchange
  rw [exchange, ← add_assoc, sum]

end SlotSum
