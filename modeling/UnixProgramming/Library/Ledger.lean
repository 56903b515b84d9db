import Mathlib.Logic.Function.Basic

/-!
# Values bound to keys, and values put aside

A value is bound to a key as long as the key is in use. When the key is given up its value
is put aside. What has been kept is what is bound and what has been put aside.
-/

namespace Ledger

variable {κ τ : Type*} {m : κ → Option τ} {old : List τ} {k : κ} {v new : τ}

def Kept (m : κ → Option τ) (old : List τ) (v : τ) : Prop := (∃ k, m k = some v) ∨ v ∈ old

/-- The values other than the one at `k`. -/
def KeptBeside (m : κ → Option τ) (old : List τ) (k : κ) (v : τ) : Prop :=
  (∃ k', k' ≠ k ∧ m k' = some v) ∨ v ∈ old

theorem kept_iff (h : m k = some v) : Kept m old new ↔ new = v ∨ KeptBeside m old k new := by
  constructor
  · rintro (⟨k', at_⟩ | aside)
    · by_cases same : k' = k
      · rw [same, h] at at_
        exact .inl (Option.some.inj at_).symm
      · exact .inr (.inl ⟨k', same, at_⟩)
    · exact .inr (.inr aside)
  · rintro (rfl | ⟨k', -, at_⟩ | aside)
    · exact .inl ⟨k, h⟩
    · exact .inl ⟨k', at_⟩
    · exact .inr aside

theorem keptBeside_of_none (h : m k = none) : KeptBeside m old k new ↔ Kept m old new := by
  apply or_congr_left
  constructor
  · rintro ⟨k', -, at_⟩
    exact ⟨k', at_⟩
  · rintro ⟨k', at_⟩
    refine ⟨k', ?_, at_⟩
    rintro rfl
    rw [h] at at_
    cases at_

variable [DecidableEq κ]

/-- A key gets a value, in the place of the one that it had. -/
theorem kept_bind : Kept (Function.update m k (some v)) old new ↔
    new = v ∨ KeptBeside m old k new := by
  rw [kept_iff (Function.update_self k (some v) m)]
  apply or_congr_right
  apply or_congr_left
  apply exists_congr
  intro k'
  apply and_congr_right
  intro apart
  rw [Function.update_of_ne apart]

/-- Nothing is lost when a key is given up. -/
theorem kept_retire (h : m k = some v) :
    Kept (Function.update m k none) (v :: old) new ↔ Kept m old new := by
  have beside : (∃ k', Function.update m k none k' = some new) ↔
      ∃ k', k' ≠ k ∧ m k' = some new := by
    apply exists_congr
    intro k'
    by_cases same : k' = k
    · simp [same]
    · simp [same]
  rw [kept_iff h, Kept, KeptBeside, beside, List.mem_cons]
  exact or_left_comm

end Ledger
