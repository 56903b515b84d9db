import UnixProgramming.Library.Transition

/-!
# Runs that come to an end

A rank that falls with every step bounds the length of a run. With it, a system in which some
step is possible wherever it is not done always gets done.
-/

namespace Transition

variable {σ α : Type*} {step : σ → α → σ → Prop} {I : σ → Prop} {rank : σ → Nat}
variable {s t : σ} {as : List α}

/-- No step is possible. -/
def Stuck (step : σ → α → σ → Prop) (s : σ) : Prop := ∀ a t, ¬ step s a t

/-- Among the states that meet `I`, `rank` falls with every step. -/
structure Ranked (step : σ → α → σ → Prop) (I : σ → Prop) (rank : σ → Nat) : Prop where
  keeps : ∀ s a t, I s → step s a t → I t
  falls : ∀ s a t, I s → step s a t → rank t < rank s

namespace Ranked

theorem length_le (ranked : Ranked step I rank) (run : Steps step s as t) (start : I s) :
    as.length + rank t ≤ rank s := by
  induction run with
  | nil => simp
  | cons first _ ih =>
      have rest := ih (ranked.keeps _ _ _ start first)
      have less := ranked.falls _ _ _ start first
      rw [List.length_cons]
      omega

/-- A run can be continued until no step is possible. -/
theorem exists_stuck (ranked : Ranked step I rank) (start : I s) :
    ∃ as t, Steps step s as t ∧ Stuck step t := by
  induction h : rank s using Nat.strongRecOn generalizing s with
  | ind n ih =>
      by_cases stuck : Stuck step s
      · exact ⟨[], s, .nil s, stuck⟩
      · obtain ⟨a, t, first⟩ : ∃ a t, step s a t := by simpa [Stuck] using stuck
        have less : rank t < n := h ▸ ranked.falls s a t start first
        obtain ⟨as, u, rest, stuck⟩ := ih (rank t) less (ranked.keeps s a t start first) rfl
        exact ⟨a :: as, u, .cons first rest, stuck⟩

end Ranked

end Transition
