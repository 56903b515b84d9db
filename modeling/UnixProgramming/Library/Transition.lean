import Mathlib.Logic.Relation

/-!
# Runs of a labelled transition relation

A system is given by its step relation alone. Actions label the choices of the
environment, so one run fixes both the schedule and the outcome of every call.
A guarded relation keeps only the steps taken where a condition holds of the
state and the action; its runs are the runs all of whose steps meet it.

An executable step function is used through the relation it computes. The rules
on `foldlM` turn the evaluation of a fixed action list into a run.
-/

namespace Transition

variable {σ α ε : Type*}

/-- `Steps step s as t`: the actions `as`, taken in order from `s`, end in `t`. -/
inductive Steps (step : σ → α → σ → Prop) : σ → List α → σ → Prop
  | nil (s : σ) : Steps step s [] s
  | cons {s t u : σ} {a : α} {as : List α} :
      step s a t → Steps step t as u → Steps step s (a :: as) u

/-- The steps of `step` that are taken where `ok` holds of state and action. -/
def Guarded (ok : σ → α → Prop) (step : σ → α → σ → Prop) : σ → α → σ → Prop :=
  fun s a t => ok s a ∧ step s a t

/-- Some run from `init` ends in the state. -/
def Reachable (step : σ → α → σ → Prop) (init s : σ) : Prop :=
  ∃ as, Steps step init as s

namespace Steps

variable {step step' : σ → α → σ → Prop} {s t u : σ} {as bs : List α}

theorem single {a : α} (h : step s a t) : Steps step s [a] t := .cons h (.nil t)

theorem mono (h : Steps step s as t) (weaken : ∀ s a t, step s a t → step' s a t) :
    Steps step' s as t := by
  induction h with
  | nil s => exact .nil s
  | cons first _ ih => exact .cons (weaken _ _ _ first) ih

theorem append (first : Steps step s as t) (second : Steps step t bs u) :
    Steps step s (as ++ bs) u := by
  induction first with
  | nil => exact second
  | cons step _ ih => exact .cons step (ih second)

/-- An invariant of every step is an invariant of every run. -/
theorem invariant {I : σ → Prop} (preserved : ∀ s a t, I s → step s a t → I t)
    (h : Steps step s as t) (start : I s) : I t := by
  induction h with
  | nil => exact start
  | cons first _ ih => exact ih (preserved _ _ _ start first)

end Steps

namespace Reachable

variable {step : σ → α → σ → Prop} {init s t : σ}

/-- The induction rule for safety properties: one initial state, one step. -/
theorem invariant {I : σ → Prop} (h : Reachable step init s) (start : I init)
    (preserved : ∀ s a t, I s → step s a t → I t) : I s := by
  obtain ⟨as, run⟩ := h
  exact run.invariant preserved start

end Reachable

/-- Evaluating a partial step function along an action list gives a run. -/
theorem Steps.of_foldlM_option {step : σ → α → Option σ} {s t : σ} {as : List α}
    (h : as.foldlM step s = some t) : Steps (fun s a t => step s a = some t) s as t := by
  induction as generalizing s with
  | nil =>
      obtain rfl : s = t := by simpa using h
      exact .nil _
  | cons a as ih =>
      rw [List.foldlM_cons] at h
      cases hstep : step s a with
      | none => simp [hstep] at h
      | some next => exact .cons hstep (ih (by simpa [hstep] using h))

/-- The same with a guard that is checked before each step. -/
theorem Steps.of_foldlM_guarded {step : σ → α → Option σ} {ok : σ → α → Prop}
    [∀ s a, Decidable (ok s a)] {s t : σ} {as : List α}
    (h : as.foldlM (fun s a => if ok s a then step s a else none) s = some t) :
    Steps (Guarded ok fun s a t => step s a = some t) s as t :=
  (Steps.of_foldlM_option h).mono fun _ _ _ hstep => Option.ite_none_right_eq_some.mp hstep

/-- Evaluating a failing step function along an action list gives a run. -/
theorem Steps.of_foldlM_except {step : σ → α → Except ε σ} {s t : σ} {as : List α}
    (h : as.foldlM step s = .ok t) : Steps (fun s a t => step s a = .ok t) s as t := by
  induction as generalizing s with
  | nil =>
      obtain rfl : s = t := Except.ok.inj h
      exact .nil _
  | cons a as ih =>
      rw [List.foldlM_cons] at h
      cases hstep : step s a with
      | error e =>
          rw [hstep] at h
          cases h
      | ok next =>
          rw [hstep] at h
          exact .cons hstep (ih h)

/-- The same when only a decidable property of the last state is to be known. -/
theorem Steps.exists_of_foldlM_except {step : σ → α → Except ε σ} {s : σ} {as : List α}
    {p : σ → Prop} [DecidablePred p]
    (h : (as.foldlM step s).toOption.any (fun t => decide (p t)) = true) :
    ∃ t, Steps (fun s a t => step s a = .ok t) s as t ∧ p t := by
  cases run : as.foldlM step s with
  | error e => simp [run, Except.toOption] at h
  | ok t => exact ⟨t, .of_foldlM_except run, by simpa [run, Except.toOption] using h⟩

end Transition
