import Mathlib.Algebra.Order.Group.Nat

/-!
# Loops that move a range piece by piece

A loop that has to move `n` elements calls an operation that moves some of them, and again for
the rest. It ends when nothing is left, when a call moves nothing, and when a call fails. An
error is reported as `-1` where nothing has been moved before, and else the count so far is
returned. The results of the calls are kept as a list, so the value of the loop can be compared
with them.
-/

namespace Transfer

variable {ε : Type*}

/-- The number of elements that a call has moved. -/
def amount : Except ε Nat → Nat
  | .ok count => count
  | .error _ => 0

def moved : List (Except ε Nat) → Nat
  | [] => 0
  | call :: calls => amount call + moved calls

@[simp] theorem moved_nil : moved ([] : List (Except ε Nat)) = 0 := rfl

@[simp] theorem moved_ok (count : Nat) (calls : List (Except ε Nat)) :
    moved (.ok count :: calls) = count + moved calls := rfl

@[simp] theorem moved_error (e : ε) (calls : List (Except ε Nat)) :
    moved (.error e :: calls) = moved calls :=
  Nat.zero_add (moved calls)

/-- `Run n nleft calls ret`: with `nleft` of `n` elements to go, the loop makes these calls and
returns `ret`. -/
inductive Run (n : Nat) : Nat → List (Except ε Nat) → Int → Prop
  | done : Run n 0 [] n
  | nothing {nleft : Nat} (more : 0 < nleft) : Run n nleft [.ok 0] (n - nleft)
  | failedFirst (e : ε) (more : 0 < n) : Run n n [.error e] (-1)
  | failed {nleft : Nat} (e : ε) (more : 0 < nleft) (later : nleft ≠ n) :
      Run n nleft [.error e] (n - nleft)
  | part {nleft count : Nat} {calls : List (Except ε Nat)} {ret : Int} (some : 0 < count)
      (fits : count ≤ nleft) (rest : Run n (nleft - count) calls ret) :
      Run n nleft (.ok count :: calls) ret

/-- What the value of the loop says about its calls. -/
structure Accounts (n : Nat) (calls : List (Except ε Nat)) (ret : Int) : Prop where
  few : calls.length ≤ n + 1
  going : ∀ call ∈ calls.dropLast, 0 < amount call
  within : moved calls ≤ n
  range : -1 ≤ ret
  value : 0 ≤ ret → ret = moved calls
  stopped : ret < n →
    calls.getLast? = some (.ok 0) ∨ ∃ e, calls.getLast? = some (.error e)
  failed : ret = -1 ↔ ∃ e, calls.head? = some (.error e)

namespace Run

variable {n nleft : Nat} {calls : List (Except ε Nat)} {ret : Int}

theorem length_le (h : Run n nleft calls ret) : calls.length ≤ nleft + 1 := by
  induction h with
  | done => simp
  | nothing more => simp
  | failedFirst e more => simp
  | failed e more later => simp
  | part some fits rest ih =>
      rw [List.length_cons]
      omega

/-- The value is the count, apart from an error that comes before anything is moved. -/
theorem value (h : Run n nleft calls ret) (le : nleft ≤ n) :
    moved calls ≤ nleft ∧
      (ret = (n - nleft : Int) + moved calls ∨
        ret = -1 ∧ nleft = n ∧ ∃ e, calls = [.error e]) := by
  induction h with
  | done => exact ⟨le_rfl, .inl (by simp)⟩
  | nothing more => exact ⟨by simp, .inl (by simp)⟩
  | failedFirst e more => exact ⟨by simp, .inr ⟨rfl, rfl, e, rfl⟩⟩
  | failed e more later => exact ⟨by simp, .inl (by simp)⟩
  | part some fits rest ih =>
      obtain ⟨within, count | ⟨-, first, -⟩⟩ := ih (by omega)
      · rw [moved_ok]
        exact ⟨by omega, .inl (by omega)⟩
      · -- something has been moved already
        omega

/-- The loop goes on only behind a call that has moved something. -/
theorem going (h : Run n nleft calls ret) : ∀ call ∈ calls.dropLast, 0 < amount call := by
  induction h with
  | done => simp
  | nothing more => simp
  | failedFirst e more => simp
  | failed e more later => simp
  | @part nleft count calls ret some fits rest ih =>
      cases calls with
      | nil => simp
      | cons call calls =>
          rw [List.dropLast_cons_cons, List.forall_mem_cons]
          exact ⟨some, ih⟩

/-- Elements are left over only where a call stops the loop. -/
theorem stopped (h : Run n nleft calls ret) :
    moved calls < nleft →
      calls.getLast? = some (.ok 0) ∨ ∃ e, calls.getLast? = some (.error e) := by
  induction h with
  | done => simp
  | nothing more => exact fun _ => .inl rfl
  | failedFirst e more => exact fun _ => .inr ⟨e, rfl⟩
  | failed e more later => exact fun _ => .inr ⟨e, rfl⟩
  | @part nleft count calls ret some fits rest ih =>
      intro short
      rw [moved_ok] at short
      have last := ih (by omega)
      cases calls with
      | nil => simp at last
      | cons call calls => simpa [List.getLast?_cons_cons] using last

/-- A loop that starts with a failing call ends with it. -/
theorem of_head_error {e : ε} (h : Run n n calls ret) (first : calls.head? = some (.error e)) :
    ret = -1 := by
  cases h with
  | failedFirst e' more => rfl
  | failed e' more later => exact absurd rfl later
  | done => simp at first
  | nothing more => simp at first
  | part some fits rest => simp at first

theorem accounts (h : Run n n calls ret) : Accounts n calls ret := by
  obtain ⟨within, value⟩ := h.value le_rfl
  refine ⟨h.length_le, h.going, within, ?_, ?_, ?_, ?_⟩
  · omega
  · intro nonneg
    omega
  · intro short
    obtain count | ⟨-, -, e, rfl⟩ := value
    · exact h.stopped (by omega)
    · exact .inr ⟨e, rfl⟩
  · constructor
    · intro minus
      obtain count | ⟨-, -, e, rfl⟩ := value
      · omega
      · exact ⟨e, rfl⟩
    · rintro ⟨e, first⟩
      exact h.of_head_error first

end Run

end Transfer
