import Mathlib.Data.Finset.Card
import Mathlib.Data.Finset.Range
import Mathlib.Logic.Function.Basic

/-!
# Tables with one slot for each key

A table has a slot for each index, and one value marks the slots that are free. It holds a
set of keys if each key has exactly one slot and nothing else stands in the table. Keys are
put into free slots and cleared from their own, in any order.
-/

namespace SlotTable

variable {ι κ : Type*} {slot : ι → κ} {free k : κ} {keys : κ → Prop} {i j : ι}

/-- The slots that are not free hold the keys, each of them once. -/
structure Holds (slot : ι → κ) (free : κ) (keys : κ → Prop) : Prop where
  marker : ¬ keys free
  used : ∀ i, slot i ≠ free → keys (slot i)
  placed : ∀ k, keys k → ∃ i, slot i = k
  once : ∀ i j, slot i ≠ free → slot i = slot j → i = j

namespace Holds

theorem empty (h : ∀ i, slot i = free) : Holds slot free fun _ => False where
  marker := id
  used i used := used (h i)
  placed _ h := h.elim
  once i _ used _ := absurd (h i) used

theorem congr {keys' : κ → Prop} (h : Holds slot free keys) (same : ∀ k, keys' k ↔ keys k) :
    Holds slot free keys' := by
  obtain rfl : keys' = keys := funext fun k => propext (same k)
  exact h

theorem ne_of_not_mem (h : Holds slot free keys) (new : ¬ keys k) (marker : k ≠ free) :
    slot i ≠ k := by
  rintro rfl
  exact new (h.used i marker)

variable [DecidableEq ι]

/-- A new key is put into a free slot. -/
theorem put (h : Holds slot free keys) (at_ : slot i = free) (new : ¬ keys k)
    (marker : k ≠ free) : Holds (Function.update slot i k) free fun x => x = k ∨ keys x := by
  constructor
  case marker =>
    rintro (same | key)
    · exact marker same.symm
    · exact h.marker key
  case used =>
    intro j used
    by_cases own : j = i
    · subst own
      exact .inl (Function.update_self j k slot)
    · rw [Function.update_of_ne own] at used ⊢
      exact .inr (h.used j used)
  case placed =>
    rintro x (rfl | key)
    · exact ⟨i, Function.update_self i x slot⟩
    · obtain ⟨j, rfl⟩ := h.placed x key
      refine ⟨j, Function.update_of_ne ?_ k slot⟩
      rintro rfl
      exact h.marker (at_ ▸ key)
  case once =>
    intro j j' used same
    by_cases own : j = i
    · subst own
      by_contra apart
      rw [Function.update_self, Function.update_of_ne (Ne.symm apart)] at same
      exact h.ne_of_not_mem new marker same.symm
    · rw [Function.update_of_ne own] at used same
      by_cases own' : j' = i
      · subst own'
        rw [Function.update_self] at same
        exact absurd same (h.ne_of_not_mem new marker)
      · rw [Function.update_of_ne own'] at same
        exact h.once j j' used same

/-- The slot of a key is given back. -/
theorem clear (h : Holds slot free keys) (at_ : slot i ≠ free) :
    Holds (Function.update slot i free) free fun x => x ≠ slot i ∧ keys x := by
  constructor
  case marker => exact fun key => h.marker key.2
  case used =>
    intro j used
    have own : j ≠ i := by
      rintro rfl
      exact used (Function.update_self j free slot)
    rw [Function.update_of_ne own] at used ⊢
    exact ⟨fun same => own (h.once j i used same), h.used j used⟩
  case placed =>
    rintro x ⟨other, key⟩
    obtain ⟨j, rfl⟩ := h.placed x key
    refine ⟨j, Function.update_of_ne ?_ free slot⟩
    rintro rfl
    exact other rfl
  case once =>
    intro j j' used same
    have own : j ≠ i := by
      rintro rfl
      exact used (Function.update_self j free slot)
    rw [Function.update_of_ne own] at used same
    have own' : j' ≠ i := by
      rintro rfl
      exact used (same.trans (Function.update_self j' free slot))
    rw [Function.update_of_ne own'] at same
    exact h.once j j' used same

end Holds

/-- More slots than there can be keys. -/
theorem Holds.exists_free {slot : Nat → κ} {n : Nat} {possible : Finset κ}
    (h : Holds slot free keys) (inside : ∀ k, keys k → k ∈ possible) (room : possible.card < n) :
    ∃ i < n, slot i = free := by
  by_contra full
  have used (i : Nat) (hi : i < n) : slot i ≠ free := fun at_ => full ⟨i, hi, at_⟩
  have few : (Finset.range n).card ≤ possible.card := by
    apply Finset.card_le_card_of_injOn slot
    · intro i mem
      exact inside _ (h.used i (used i (Finset.mem_range.mp mem)))
    · intro i mem j _ same
      exact h.once i j (used i (Finset.mem_range.mp mem)) same
  rw [Finset.card_range] at few
  omega

end SlotTable
