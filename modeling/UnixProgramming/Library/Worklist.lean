import Mathlib.Data.List.Nodup
import Mathlib.Data.List.Perm.Subperm

/-!
# A list that grows while it is walked

The items of a list are processed from its front. What an item leads to goes to the end of the
list, behind the items that wait. When the walk has come to the end, the list has everything that
can be reached from its beginning. If each item is led to from one item at most, nothing is on
the list twice, so that the walk ends in a finite graph.
-/

namespace Worklist

variable {α : Type*} (next : α → List α) (start : List α)

/-- The list after `n` items have been processed. -/
def after : Nat → List α
  | 0 => start
  | n + 1 => after n ++ ((after n)[n]?.map next).getD []

/-- The items of which `n` have been processed. -/
def processed (n : Nat) : List α := (after next start n).take n

inductive Reach : α → Prop
  | start {a : α} : a ∈ start → Reach a
  | next {a b : α} : Reach a → b ∈ next a → Reach b

variable {next start} {a b : α} {n : Nat}

/-- What is reached lies in each set that is closed under `next`. -/
theorem Reach.mem {all : List α} (reach : Reach next start b) (roots : ∀ a ∈ start, a ∈ all)
    (closed : ∀ a ∈ all, ∀ b ∈ next a, b ∈ all) : b ∈ all := by
  induction reach with
  | start mem => exact roots _ mem
  | next _ step ih => exact closed _ ih _ step

theorem after_succ (item : (after next start n)[n]? = some a) :
    after next start (n + 1) = after next start n ++ next a := by
  rw [after, item]
  rfl

theorem processed_succ (item : (after next start n)[n]? = some a) :
    processed next start (n + 1) = processed next start n ++ [a] := by
  obtain ⟨inside, _⟩ := List.getElem?_eq_some_iff.mp item
  rw [processed, processed, after_succ item, List.take_append_of_le_length inside,
    List.take_add_one, item]
  rfl

/-- When there is no item left, nothing changes. -/
theorem processed_succ_of_done (done : (after next start n)[n]? = none) :
    processed next start (n + 1) = processed next start n := by
  rw [List.getElem?_eq_none_iff] at done
  rw [processed, processed, after, List.getElem?_eq_none done, Option.map_none, Option.getD_none,
    List.append_nil, List.take_of_length_le (by omega), List.take_of_length_le done]

theorem processed_of_done (done : (after next start n)[n]? = none) :
    processed next start n = after next start n :=
  List.take_of_length_le (List.getElem?_eq_none_iff.mp done)

theorem reach_of_mem_after (mem : b ∈ after next start n) : Reach next start b := by
  induction n generalizing b with
  | zero => exact .start mem
  | succ n ih =>
      cases item : (after next start n)[n]? with
      | none =>
          rw [after, item, Option.map_none, Option.getD_none, List.append_nil] at mem
          exact ih mem
      | some a =>
          rw [after_succ item] at mem
          obtain old | new := List.mem_append.mp mem
          · exact ih old
          · exact .next (ih (List.mem_of_getElem? item)) new

/-- What is on the list has been there from the start, or a processed item led to it. -/
theorem mem_after_iff :
    b ∈ after next start n ↔ b ∈ start ∨ ∃ a ∈ processed next start n, b ∈ next a := by
  induction n with
  | zero => simp [after, processed]
  | succ n ih =>
      cases item : (after next start n)[n]? with
      | none =>
          rw [processed_succ_of_done item, after, item, Option.map_none, Option.getD_none,
            List.append_nil]
          exact ih
      | some a =>
          rw [processed_succ item, after_succ item, List.mem_append, ih]
          simp only [List.mem_append, List.mem_singleton, or_and_right, exists_or, or_assoc,
            exists_eq_left]

/-- A walk that is over has been everywhere. -/
theorem mem_processed_of_reach (done : (after next start n)[n]? = none)
    (reach : Reach next start b) : b ∈ processed next start n := by
  rw [processed_of_done done]
  induction reach with
  | start mem => exact mem_after_iff.mpr (.inl mem)
  | next _ step ih =>
      rw [← processed_of_done done] at ih
      exact mem_after_iff.mpr (.inr ⟨_, ih, step⟩)

/-- Each item is led to from one item at most, and from that one once. -/
structure Tree (next : α → List α) (start : List α) : Prop where
  roots : start.Nodup
  nodup : ∀ a, Reach next start a → (next a).Nodup
  parent : ∀ a b c, Reach next start a → Reach next start b → c ∈ next a → c ∈ next b → a = b
  noRoot : ∀ a b, Reach next start a → b ∈ next a → b ∉ start

theorem Tree.nodup_after (tree : Tree next start) (n : Nat) : (after next start n).Nodup := by
  induction n with
  | zero => exact tree.roots
  | succ n ih =>
      cases item : (after next start n)[n]? with
      | none =>
          rw [after, item, Option.map_none, Option.getD_none, List.append_nil]
          exact ih
      | some a =>
          have here : Reach next start a := reach_of_mem_after (List.mem_of_getElem? item)
          rw [after_succ item, List.nodup_append]
          refine ⟨ih, tree.nodup a here, ?_⟩
          rintro b old _ new rfl
          obtain first | ⟨a', before, new'⟩ := mem_after_iff.mp old
          · exact tree.noRoot a b here new first
          · -- the item that led to `b` before has been processed before, and it is `a`
            have there : Reach next start a' := reach_of_mem_after (List.mem_of_mem_take before)
            obtain rfl := tree.parent a' a b there here new' new
            obtain ⟨i, earlier, item'⟩ := List.mem_take_iff_getElem.mp before
            obtain ⟨inside, item⟩ := List.getElem?_eq_some_iff.mp item
            have same := (ih.getElem_inj_iff).mp (item'.trans item.symm)
            omega

/-- In a finite graph the walk ends. -/
theorem Tree.done (tree : Tree next start) {all : List α}
    (finite : ∀ a, Reach next start a → a ∈ all) (enough : all.length ≤ n) :
    (after next start n)[n]? = none := by
  have sub : (after next start n).Subperm all :=
    (tree.nodup_after n).subperm fun _ mem => finite _ (reach_of_mem_after mem)
  exact List.getElem?_eq_none (Nat.le_trans sub.length_le enough)

end Worklist
