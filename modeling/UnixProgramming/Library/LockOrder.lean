import Mathlib.Logic.Relation
import Mathlib.Order.RelClasses

/-!
# Lock orders exclude wait cycles

`holds t m` says that thread `t` owns mutex `m`, and `wants t m` that the next
action of `t` acquires `m`. A lock order ranks the mutexes so that a thread only
wants mutexes of larger rank than the ones it holds. Around a cycle of waiting
threads the rank of the wanted mutex would have to grow for ever.
-/

namespace LockOrder

variable {T M R : Type*}

/-- `t` wants a mutex that `u` holds. -/
def WaitsFor (wants holds : T → M → Prop) (t u : T) : Prop :=
  ∃ m, wants t m ∧ holds u m

/-- Every mutex a thread wants is ranked above every mutex it holds. -/
def Respects (rank : M → R) [LT R] (wants holds : T → M → Prop) : Prop :=
  ∀ t m m', holds t m → wants t m' → rank m < rank m'

variable {wants holds : T → M → Prop} {rank : M → R} [Preorder R]

/-- A thread never waits for a mutex that it already holds. -/
theorem Respects.not_self (order : Respects rank wants holds) {t : T} {m : M}
    (hw : wants t m) : ¬ holds t m :=
  fun hh => lt_irrefl _ (order t m m hh hw)

/-- Along a path of waiting threads the last thread holds a mutex that is ranked
no lower than some mutex wanted by the first one. -/
theorem Respects.rank_le_of_path (order : Respects rank wants holds) {t u : T}
    (path : Relation.TransGen (WaitsFor wants holds) t u) :
    ∃ m m', wants t m ∧ holds u m' ∧ rank m ≤ rank m' := by
  induction path with
  | single h =>
      obtain ⟨m, hw, hh⟩ := h
      exact ⟨m, m, hw, hh, le_refl _⟩
  | tail _ h ih =>
      obtain ⟨m, m', hw, hh, hle⟩ := ih
      obtain ⟨m₂, hw₂, hh₂⟩ := h
      exact ⟨m, m₂, hw, hh₂, le_of_lt (lt_of_le_of_lt hle (order _ _ _ hh hw₂))⟩

/-- Deadlock freedom: no thread waits for itself through any chain of others. -/
theorem Respects.acyclic (order : Respects rank wants holds) (t : T) :
    ¬ Relation.TransGen (WaitsFor wants holds) t t := by
  intro cycle
  obtain ⟨m, m', hw, hh, hle⟩ := order.rank_le_of_path cycle
  exact lt_irrefl _ (lt_of_lt_of_le (order t m' m hh hw) hle)

end LockOrder
