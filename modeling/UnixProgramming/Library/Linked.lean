import Mathlib.Data.List.Nodup
import Mathlib.Logic.Function.Basic

/-!
# Null-terminated chains of linked cells

Cells are named by addresses. `next a` is the successor field stored in the cell
at `a`; it is `none` when there is no cell at `a`, so following it would read
memory that is not allocated. A chain records the addresses met on the way from
a pointer to the null pointer. It can only exist over allocated cells.

`walk` is the usual loop over such a chain. It reports the cell at which the
loop stopped, the null pointer, or an access to an unallocated cell. The number
of remaining iterations is explicit, and a chain bounds how many are needed.
-/

namespace Linked

variable {α : Type*}

/-- Successor fields of the allocated cells. A stored `none` is the null pointer. -/
abbrev Links (α : Type*) := α → Option (Option α)

/-- Following `next` from the pointer `p` visits exactly `xs` and reaches null. -/
def Chain (next : Links α) : Option α → List α → Prop
  | p, [] => p = none
  | p, a :: as => p = some a ∧ ∃ q, next a = some q ∧ Chain next q as

@[simp] theorem chain_nil {next : Links α} {p : Option α} :
    Chain next p [] ↔ p = none := Iff.rfl

@[simp] theorem chain_cons {next : Links α} {p : Option α} {a : α} {as : List α} :
    Chain next p (a :: as) ↔ p = some a ∧ ∃ q, next a = some q ∧ Chain next q as := Iff.rfl

namespace Chain

variable {next next' : Links α} {p q : Option α} {a b : α} {xs ys : List α}

/-- A pointer determines the whole chain behind it. -/
theorem unique (left : Chain next p xs) (right : Chain next p ys) : xs = ys := by
  induction xs generalizing p ys with
  | nil =>
      cases ys with
      | nil => rfl
      | cons b ys => simp_all
  | cons a xs ih =>
      cases ys with
      | nil => simp_all
      | cons b ys =>
          obtain ⟨rfl, q, hq, left⟩ := left
          obtain ⟨hb, r, hr, right⟩ := right
          cases hb
          rw [hq] at hr
          cases hr
          rw [ih left right]

theorem suffix (h : Chain next p (xs ++ a :: ys)) : ∃ q, next a = some q ∧ Chain next q ys := by
  induction xs generalizing p with
  | nil => exact h.2
  | cons b xs ih =>
      obtain ⟨_, q, _, rest⟩ := h
      exact ih rest

/-- A chain that reaches null never visits a cell twice. -/
theorem nodup (h : Chain next p xs) : xs.Nodup := by
  induction xs generalizing p with
  | nil => exact List.nodup_nil
  | cons a xs ih =>
      obtain ⟨_, q, hq, rest⟩ := h
      refine List.nodup_cons.mpr ⟨?_, ih rest⟩
      -- a second visit would repeat the whole rest of the chain
      intro again
      obtain ⟨before, after, rfl⟩ := List.append_of_mem again
      obtain ⟨r, hr, tail⟩ := rest.suffix
      rw [hq] at hr
      cases hr
      have same := congrArg List.length (rest.unique tail)
      simp only [List.length_append, List.length_cons] at same
      omega

/-- Only the cells on the chain matter. -/
theorem congr (h : Chain next p xs) (agree : ∀ a ∈ xs, next' a = next a) :
    Chain next' p xs := by
  induction xs generalizing p with
  | nil => exact h
  | cons a xs ih =>
      obtain ⟨hp, q, hq, rest⟩ := h
      exact ⟨hp, q, (agree a List.mem_cons_self).trans hq,
        ih rest fun b hb => agree b (List.mem_cons_of_mem a hb)⟩

variable [DecidableEq α]

/-- Storing to a cell outside the chain does not change it. -/
theorem update_of_notMem (h : Chain next p xs) (ha : a ∉ xs) (v : Option (Option α)) :
    Chain (Function.update next a v) p xs := by
  apply h.congr
  intro b hb
  have hne : b ≠ a := by
    rintro rfl
    exact ha hb
  rw [Function.update_of_ne hne]

/-- Insertion at the head. -/
theorem push (h : Chain next p xs) (ha : a ∉ xs) :
    Chain (Function.update next a (some p)) (some a) (a :: xs) :=
  ⟨rfl, p, Function.update_self a (some p) next, h.update_of_notMem ha (some p)⟩

/-- Redirecting the predecessor of `a` to the successor of `a` takes exactly `a`
off the chain. -/
theorem unlink (h : Chain next p (xs ++ b :: a :: ys)) (hq : next a = some q) :
    Chain (Function.update next b (some q)) p (xs ++ b :: ys) := by
  induction xs generalizing p with
  | nil =>
      have distinct := h.nodup
      obtain ⟨hp, _, _, _, r, hr, tail⟩ := h
      rw [hq] at hr
      cases hr
      refine ⟨hp, q, Function.update_self b (some q) next, tail.update_of_notMem ?_ (some q)⟩
      intro hb
      simp [hb] at distinct
  | cons c xs ih =>
      have distinct := h.nodup
      obtain ⟨hp, r, hr, rest⟩ := h
      have hne : c ≠ b := by
        intro hcb
        simp [hcb] at distinct
      exact ⟨hp, r, (Function.update_of_ne hne (some q) next).trans hr, ih rest⟩

/-- Redirecting `b` to a cell `a` that leads to the successor of `b` puts `a` on the chain,
right behind `b`. -/
theorem link (h : Chain next p (xs ++ b :: ys)) (ha : a ∉ xs ++ b :: ys) (hb : next b = some q)
    (hq : next a = some q) :
    Chain (Function.update next b (some (some a))) p (xs ++ b :: a :: ys) := by
  induction xs generalizing p with
  | nil =>
      have distinct := h.nodup
      obtain ⟨hp, r, hr, tail⟩ := h
      rw [hb] at hr
      cases hr
      have hab : a ≠ b := by
        rintro rfl
        exact ha List.mem_cons_self
      have behind : b ∉ ys := (List.nodup_cons.mp distinct).1
      exact ⟨hp, some a, Function.update_self b _ next, rfl, q,
        (Function.update_of_ne hab _ next).trans hq, tail.update_of_notMem behind _⟩
  | cons c xs ih =>
      have distinct := h.nodup
      obtain ⟨hp, r, hr, rest⟩ := h
      have hne : c ≠ b := by
        intro hcb
        simp [hcb] at distinct
      exact ⟨hp, r, (Function.update_of_ne hne _ next).trans hr,
        ih rest fun mem => ha (List.mem_cons_of_mem c mem)⟩

end Chain

/-- How a loop over a chain ends. -/
inductive WalkResult (α : Type*)
  | found (a : α)
  | null
  | dangling (a : α)
  | outOfFuel
  deriving DecidableEq

/-- Follow the links from `p` up to the first cell that satisfies `stop`. The cell
is read before it is tested, as in `while (!stop(p)) p = p->next`. -/
def walk (next : Links α) (stop : α → Bool) : Nat → Option α → WalkResult α
  | _, none => .null
  | 0, some _ => .outOfFuel
  | fuel + 1, some a =>
      match next a with
      | none => .dangling a
      | some q => if stop a then .found a else walk next stop fuel q

/-- On a chain the loop finds the first cell that satisfies the test, or else it
reaches null. It reads allocated cells only. -/
theorem Chain.walk_eq {next : Links α} {stop : α → Bool} {p : Option α} {xs : List α}
    (h : Chain next p xs) {fuel : Nat} (enough : xs.length ≤ fuel) :
    walk next stop fuel p =
      match xs.find? stop with
      | some a => .found a
      | none => .null := by
  induction xs generalizing p fuel with
  | nil =>
      rw [chain_nil.mp h]
      cases fuel <;> rfl
  | cons a xs ih =>
      obtain ⟨rfl, q, hq, rest⟩ := h
      cases fuel with
      | zero => simp at enough
      | succ fuel =>
          cases hstop : stop a with
          | true => simp [walk, hq, hstop]
          | false =>
              simpa [walk, hq, hstop] using ih rest (Nat.le_of_succ_le_succ enough)

/-- The search for the predecessor of `a` stops at the cell right before it. -/
theorem Chain.walk_pred [DecidableEq α] {next : Links α} {p : Option α} {xs ys : List α}
    {a b : α} (h : Chain next p (xs ++ b :: a :: ys)) {fuel : Nat}
    (enough : (xs ++ b :: a :: ys).length ≤ fuel) :
    walk next (fun t => next t = some (some a)) fuel p = .found b := by
  have hb : next b = some (some a) := by
    obtain ⟨q, hq, rest⟩ := h.suffix
    rw [hq, rest.1]
  have before : ∀ t ∈ xs, next t ≠ some (some a) := by
    intro t ht hta
    obtain ⟨front, back, rfl⟩ := List.append_of_mem ht
    have h' : Chain next p (front ++ t :: (back ++ b :: a :: ys)) := by simpa using h
    obtain ⟨q, hq, rest⟩ := h'.suffix
    rw [hta] at hq
    cases hq
    -- the chain would meet `a` right behind `t` and again behind `b`
    have distinct := rest.nodup
    cases back with
    | nil =>
        have hba : b = a := (Option.some.inj rest.1).symm
        simp [hba] at distinct
    | cons c back =>
        have hca : c = a := (Option.some.inj rest.1).symm
        simp [hca] at distinct
  rw [h.walk_eq enough, List.find?_append, List.find?_eq_none.mpr (by simpa using before)]
  simp [hb]

end Linked
