import Mathlib.Init

/-!
# Computations that may fail

How a sequence of computations in `Except` runs: it goes on with the result of its
first part, and it ends with the first error.
-/

namespace Fallible

universe u

variable {ε β γ : Type u}

@[simp] theorem ok_bind (b : β) (f : β → Except ε γ) : (.ok b : Except ε β) >>= f = f b := rfl

@[simp] theorem error_bind (e : ε) (f : β → Except ε γ) :
    (.error e : Except ε β) >>= f = .error e := rfl

@[simp] theorem pure_eq_ok (b : β) : (pure b : Except ε β) = .ok b := rfl

/-- A sequence succeeds only if its first part does. -/
theorem bind_ok {x : Except ε β} {f : β → Except ε γ} {c : γ} (h : x >>= f = .ok c) :
    ∃ b, x = .ok b ∧ f b = .ok c := by
  cases x with
  | error e => cases h
  | ok b => exact ⟨b, rfl, h⟩

/-- What is dropped at the end of a sequence can be dropped from its last part. -/
theorem map_bind {δ : Type u} (x : Except ε β) (f : β → Except ε γ) (g : γ → δ) :
    (x >>= f).map g = x >>= fun b => (f b).map g := by
  cases x with
  | error e => rfl
  | ok b => rfl

theorem bind_map {δ : Type u} (x : Except ε β) (g : β → γ) (f : γ → Except ε δ) :
    x.map g >>= f = x >>= fun b => f (g b) := by
  cases x with
  | error e => rfl
  | ok b => rfl

/-- A counted loop succeeds and keeps an invariant if each round does. -/
theorem foldlM_range {body : β → Nat → Except ε β} {I : Nat → β → Prop} {n : Nat} {b : β}
    (start : I 0 b)
    (round : ∀ k b, k < n → I k b → ∃ next, body b k = .ok next ∧ I (k + 1) next) :
    ∃ last, (List.range n).foldlM body b = .ok last ∧ I n last := by
  induction n with
  | zero => exact ⟨b, rfl, start⟩
  | succ n ih =>
      obtain ⟨middle, run, inv⟩ := ih fun k b more => round k b (Nat.lt_succ_of_lt more)
      obtain ⟨last, step, inv'⟩ := round n middle (Nat.lt_succ_self n) inv
      refine ⟨last, ?_, inv'⟩
      rw [List.range_succ, List.foldlM_append, run, ok_bind, List.foldlM_cons, step, ok_bind]
      rfl

/-- What each round keeps holds when a counted loop has succeeded. -/
theorem foldlM_range_keeps {body : β → Nat → Except ε β} {I : Nat → β → Prop} {n : Nat}
    {b last : β} (start : I 0 b)
    (round : ∀ k b next, I k b → body b k = .ok next → I (k + 1) next)
    (run : (List.range n).foldlM body b = .ok last) : I n last := by
  induction n generalizing last with
  | zero =>
      cases run
      exact start
  | succ n ih =>
      rw [List.range_succ, List.foldlM_append] at run
      obtain ⟨middle, run, rest⟩ := bind_ok run
      rw [List.foldlM_cons] at rest
      obtain ⟨next, step, rest⟩ := bind_ok rest
      cases rest
      exact round n middle last (ih run) step

/-- A loop that keeps notes runs as the loop without them, if each round does. -/
theorem map_foldlM {noted : β → Nat → Except ε β} {body : γ → Nat → Except ε γ} {erase : β → γ}
    (round : ∀ b k, (noted b k).map erase = body (erase b) k) (ks : List Nat) (b : β) :
    (ks.foldlM noted b).map erase = ks.foldlM body (erase b) := by
  induction ks generalizing b with
  | nil => rfl
  | cons k ks ih =>
      rw [List.foldlM_cons, List.foldlM_cons, ← round b k]
      cases noted b k with
      | error e => rfl
      | ok next => exact ih next

end Fallible
