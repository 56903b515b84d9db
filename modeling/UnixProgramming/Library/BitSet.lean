import Mathlib.Data.List.Induction
import Mathlib.Data.Set.Insert
import Mathlib.Data.Set.Basic
import Mathlib.Order.BooleanAlgebra.Set

/-!
# Sets of small numbers in the bits of a word

A bit that is set stands for its position. Setting, clearing and testing one bit by a mask are
insertion, removal and membership. In a sequence of changes the last one that touches an element
decides about it.
-/

namespace BitSet

section Masks

variable {w i : Nat} (b : BitVec w)

/-- The positions of the bits that are set. -/
def members (b : BitVec w) : Set Nat := {i | b.getLsbD i = true}

@[simp] theorem mem_members : i ∈ members b ↔ b.getLsbD i = true := Iff.rfl

theorem getLsbD_mask (inside : i < w) (j : Nat) : (1#w <<< i).getLsbD j = decide (i = j) := by
  rw [← BitVec.twoPow_eq, BitVec.getLsbD_twoPow, decide_eq_true inside, Bool.true_and]

theorem members_zero : members 0#w = ∅ := by
  ext j
  simp

theorem members_or_mask (inside : i < w) : members (b ||| 1#w <<< i) = insert i (members b) := by
  ext j
  simp only [mem_members, Set.mem_insert_iff, BitVec.getLsbD_or,
    getLsbD_mask inside, Bool.or_eq_true, decide_eq_true_eq]
  rw [or_comm, eq_comm]

theorem members_and_not_mask (inside : i < w) :
    members (b &&& ~~~(1#w <<< i)) = members b \ {i} := by
  ext j
  simp only [mem_members, Set.mem_sdiff, Set.mem_singleton_iff, BitVec.getLsbD_and,
    BitVec.getLsbD_not, getLsbD_mask inside, Bool.and_eq_true, decide_eq_true_eq,
    Bool.not_eq_true', decide_eq_false_iff_not]
  constructor
  · rintro ⟨isSet, -, apart⟩
    exact ⟨isSet, Ne.symm apart⟩
  · rintro ⟨isSet, apart⟩
    exact ⟨isSet, BitVec.lt_of_getLsbD isSet, Ne.symm apart⟩

theorem and_mask_ne_zero_iff : b &&& 1#w <<< i ≠ 0#w ↔ i ∈ members b := by
  constructor
  · intro nonzero
    by_contra absent
    rw [mem_members] at absent
    rw [← BitVec.twoPow_eq, BitVec.and_twoPow, if_neg absent] at nonzero
    exact nonzero rfl
  · intro isSet zero
    have same := congrArg (fun c => c.getLsbD i) zero
    have inside : i < w := BitVec.lt_of_getLsbD isSet
    simp only [BitVec.getLsbD_and, getLsbD_mask inside, BitVec.getLsbD_zero, decide_true,
      Bool.and_true] at same
    exact absurd isSet (ne_true_of_eq_false same)

end Masks

/-- A change of a set. -/
inductive Change (α : Type*)
  | clear
  | add (a : α)
  | remove (a : α)
  deriving DecidableEq

namespace Change

variable {α : Type*}

def apply (s : Set α) : Change α → Set α
  | clear => ∅
  | add a => insert a s
  | remove a => s \ {a}

variable [DecidableEq α]

/-- The change decides whether `a` is in the set. -/
def touches (a : α) : Change α → Bool
  | clear => true
  | add b => b = a
  | remove b => b = a

/-- The last change that touches `a`. -/
def last (a : α) (changes : List (Change α)) : Option (Change α) :=
  (changes.filter (touches a)).getLast?

/-- Whether `a` is in the set after the changes, if it is told whether it was before. -/
def Holds (a : α) (changes : List (Change α)) (before : Prop) : Prop :=
  match last a changes with
  | none => before
  | some change => change = add a

theorem mem_apply_of_touches {a : α} {change : Change α} (touched : touches a change = true)
    (s : Set α) : a ∈ apply s change ↔ change = add a := by
  cases change with
  | clear => simp [apply]
  | add b =>
      obtain rfl : b = a := of_decide_eq_true touched
      simp [apply]
  | remove b =>
      obtain rfl : b = a := of_decide_eq_true touched
      simp [apply]

theorem mem_apply_of_not_touches {a : α} {change : Change α} (apart : touches a change ≠ true)
    (s : Set α) : a ∈ apply s change ↔ a ∈ s := by
  cases change with
  | clear => exact absurd rfl apart
  | add b =>
      have apart : b ≠ a := fun same => apart (decide_eq_true same)
      simp [apply, Ne.symm apart]
  | remove b =>
      have apart : b ≠ a := fun same => apart (decide_eq_true same)
      simp [apply, Ne.symm apart]

/-- The last change that touches an element decides about it. -/
theorem mem_foldl_apply (a : α) (changes : List (Change α)) (s : Set α) :
    a ∈ changes.foldl apply s ↔ Holds a changes (a ∈ s) := by
  induction changes using List.reverseRecOn with
  | nil => rfl
  | append_singleton changes change ih =>
      rw [List.foldl_append, List.foldl_cons, List.foldl_nil]
      by_cases touched : touches a change = true
      · rw [mem_apply_of_touches touched, Holds, last, List.filter_append,
          List.filter_cons_of_pos touched, List.filter_nil, List.getLast?_concat]
      · rw [mem_apply_of_not_touches touched, ih, Holds, Holds, last, last, List.filter_append,
          List.filter_cons_of_neg touched, List.filter_nil, List.append_nil]

end Change

end BitSet
