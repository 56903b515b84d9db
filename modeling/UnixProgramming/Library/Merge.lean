import Mathlib.Data.List.Perm.Basic
import Mathlib.Order.Defs.PartialOrder

/-!
# Merging sorted runs

The least of the heads of all runs goes to the output, one after the other. Each of the
runs must be sorted at the start. When all of them are used up, the output is sorted and holds
what the runs held.
-/

namespace Merge

variable {α : Type*}

/-- The output so far and what is left of the runs, in a merge of `input`. -/
structure Merging [LE α] (input out : List α) (runs : List (List α)) : Prop where
  perm : (out ++ runs.flatten).Perm input
  sorted : out.Pairwise (· ≤ ·)
  ordered : ∀ run ∈ runs, run.Pairwise (· ≤ ·)
  below : ∀ a ∈ out, ∀ run ∈ runs, ∀ b ∈ run, a ≤ b

namespace Merging

variable [Preorder α] {input out : List α} {runs : List (List α)}

theorem start (sorted : ∀ run ∈ runs, run.Pairwise (· ≤ ·)) : Merging runs.flatten [] runs :=
  ⟨.refl _, .nil, sorted, nofun⟩

/-- One step: `a` is the head of run `i`, and no head is smaller. -/
theorem step {i : Nat} {a : α} {rest : List α} (m : Merging input out runs)
    (at_ : runs[i]? = some (a :: rest)) (least : ∀ run ∈ runs, ∀ b ∈ run.head?, a ≤ b) :
    Merging input (out ++ [a]) (runs.set i rest) := by
  obtain ⟨inside, at_⟩ := List.getElem?_eq_some_iff.mp at_
  obtain ⟨front, back, split, set⟩ : ∃ front back, runs = front ++ runs[i] :: back ∧
      runs.set i rest = front ++ rest :: back := by
    obtain ⟨front, back, split, -, set⟩ := List.exists_of_set inside
    exact ⟨front, back, split, set⟩
  rw [at_] at split
  have a_le {run : List α} (mem : run ∈ runs) {b : α} (hb : b ∈ run) : a ≤ b := by
    have sorted := m.ordered run mem
    cases run with
    | nil => cases hb
    | cons head tail =>
        have first := least _ mem head rfl
        obtain rfl | later := List.mem_cons.mp hb
        · exact first
        · exact le_trans first (List.rel_of_pairwise_cons sorted later)
  have own : a :: rest ∈ runs := split ▸ List.mem_append_right _ List.mem_cons_self
  -- every run that is left is one of the runs before, or the rest of one
  have left {run : List α} (mem : run ∈ runs.set i rest) : run ∈ runs ∨ run = rest :=
    List.mem_or_eq_of_mem_set mem
  refine ⟨?_, ?_, fun run mem => ?_, fun c hc run mem b hb => ?_⟩
  · have moved : (out ++ [a] ++ (runs.set i rest).flatten).Perm (out ++ runs.flatten) := by
      rw [set, split, List.flatten_append, List.flatten_append, List.flatten_cons,
        List.flatten_cons, List.append_assoc]
      apply List.Perm.append_left
      show (a :: (front.flatten ++ (rest ++ back.flatten))).Perm
        (front.flatten ++ a :: (rest ++ back.flatten))
      exact List.perm_middle.symm
    exact moved.trans m.perm
  · rw [List.pairwise_append]
    refine ⟨m.sorted, List.pairwise_singleton _ _, fun c hc b hb => ?_⟩
    rw [List.mem_singleton.mp hb]
    exact m.below c hc _ own a List.mem_cons_self
  · obtain old | rfl := left mem
    · exact m.ordered run old
    · exact (m.ordered _ own).of_cons
  · have source : ∃ run' ∈ runs, b ∈ run' := by
      obtain old | rfl := left mem
      · exact ⟨run, old, hb⟩
      · exact ⟨_, own, List.mem_cons_of_mem a hb⟩
    obtain ⟨run', mem', hb'⟩ := source
    obtain older | new := List.mem_append.mp hc
    · exact m.below c older run' mem' b hb'
    · rw [List.mem_singleton.mp new]
      exact a_le mem' hb'

theorem length_eq (m : Merging input out runs) :
    out.length + runs.flatten.length = input.length := by
  rw [← List.length_append]
  exact m.perm.length_eq

/-- While the output is shorter than the input, some run is left. -/
theorem exists_head (m : Merging input out runs) (short : out.length < input.length) :
    ∃ (i : Nat) (a : α) (rest : List α), runs[i]? = some (a :: rest) := by
  have left : runs.flatten ≠ [] := by
    intro empty
    have total := m.length_eq
    rw [empty, List.length_nil] at total
    omega
  obtain ⟨run, mem, nonempty⟩ := List.flatten_ne_nil_iff.mp left
  obtain ⟨i, at_⟩ := List.mem_iff_getElem?.mp mem
  obtain ⟨a, rest, rfl⟩ := List.exists_cons_of_ne_nil nonempty
  exact ⟨i, a, rest, at_⟩

/-- The output is complete when it is as long as the input. -/
theorem perm_of_length (m : Merging input out runs) (full : out.length = input.length) :
    out.Perm input := by
  have total := m.length_eq
  have empty : runs.flatten = [] := by
    apply List.length_eq_zero_iff.mp
    omega
  have perm := m.perm
  rwa [empty, List.append_nil] at perm

end Merging

end Merge
