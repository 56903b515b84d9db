import UnixProgramming.Library.Linked

/-!
# Doubly linked lists

A doubly linked list is a chain of `next` links from its head and a chain of `prev` links from
its tail that visits the same cells in the opposite order. Exchanging the links and the ends
gives the reversed list, so what is shown for the front holds for the back as well.
-/

namespace Linked

variable {α : Type*}

structure DoublyLinked (next prev : Links α) (head tail : Option α) (xs : List α) : Prop where
  forward : Chain next head xs
  backward : Chain prev tail xs.reverse

namespace DoublyLinked

variable {next prev : Links α} {head tail p : Option α} {a b : α} {xs ys : List α}

theorem nodup (h : DoublyLinked next prev head tail xs) : xs.Nodup := h.forward.nodup

theorem nil : DoublyLinked next prev none none [] := ⟨rfl, rfl⟩

theorem reverse (h : DoublyLinked next prev head tail xs) :
    DoublyLinked prev next tail head xs.reverse :=
  ⟨h.backward, by simpa using h.forward⟩

theorem head_eq (h : DoublyLinked next prev head tail xs) : head = xs.head? := by
  cases xs with
  | nil => exact h.forward
  | cons a xs => exact h.forward.1

theorem tail_eq (h : DoublyLinked next prev head tail xs) : tail = xs.getLast? := by
  rw [h.reverse.head_eq, List.head?_reverse]

/-- Nothing is in front of the first cell. -/
theorem prev_head (h : DoublyLinked next prev head tail (a :: xs)) : prev a = some none := by
  have back : Chain prev tail (xs.reverse ++ [a]) := by simpa using h.backward
  obtain ⟨q, hq, last⟩ := back.suffix
  rw [hq, chain_nil.mp last]

theorem next_tail (h : DoublyLinked next prev head tail (xs ++ [a])) : next a = some none :=
  (show DoublyLinked prev next tail head (a :: xs.reverse) by simpa using h.reverse).prev_head

theorem next_eq (h : DoublyLinked next prev head tail (xs ++ a :: b :: ys)) :
    next a = some (some b) := by
  obtain ⟨q, hq, rest⟩ := h.forward.suffix
  rw [hq, rest.1]

theorem prev_eq (h : DoublyLinked next prev head tail (xs ++ a :: b :: ys)) :
    prev b = some (some a) := by
  have reversed : DoublyLinked prev next tail head (ys.reverse ++ b :: a :: xs.reverse) := by
    simpa using h.reverse
  exact reversed.next_eq

/-- A cell with a predecessor is not the head. -/
theorem head_ne (h : DoublyLinked next prev head tail (xs ++ b :: a :: ys)) : head ≠ some a := by
  intro same
  have distinct := h.nodup
  rw [h.head_eq] at same
  cases xs with
  | nil =>
      obtain rfl : b = a := Option.some.inj same
      simp at distinct
  | cons c xs =>
      obtain rfl : c = a := Option.some.inj same
      simp at distinct

theorem tail_ne (h : DoublyLinked next prev head tail (xs ++ a :: b :: ys)) : tail ≠ some a := by
  have reversed : DoublyLinked prev next tail head (ys.reverse ++ b :: a :: xs.reverse) := by
    simpa using h.reverse
  exact reversed.head_ne

variable [DecidableEq α]

theorem singleton (a : α) : DoublyLinked (Function.update next a (some none))
    (Function.update prev a (some none)) (some a) (some a) [a] :=
  ⟨⟨rfl, none, Function.update_self a _ next, rfl⟩,
    ⟨rfl, none, Function.update_self a _ prev, rfl⟩⟩

/-- A cell in front of a list that is not empty: it leads to the old head, and the old head
leads back to it. -/
theorem pushFront (h : DoublyLinked next prev head tail (b :: ys)) (ha : a ∉ b :: ys) :
    DoublyLinked (Function.update next a (some head))
      (Function.update (Function.update prev a (some none)) b (some (some a)))
      (some a) tail (a :: b :: ys) := by
  refine ⟨h.forward.push ha, ?_⟩
  have hab : b ≠ a := by
    rintro rfl
    exact ha List.mem_cons_self
  have back : Chain prev tail (ys.reverse ++ [b]) := by simpa using h.backward
  have outside : a ∉ ys.reverse ++ [b] := by simpa [or_comm] using ha
  have linked := (back.update_of_notMem outside (some none)).link outside
    ((Function.update_of_ne hab (some none) prev).trans h.prev_head)
    (Function.update_self a (some none) prev)
  simpa using linked

/-- The list behind its first cell, whose successor no longer leads back to it. -/
theorem popFront (h : DoublyLinked next prev head tail (a :: b :: ys)) :
    DoublyLinked next (Function.update prev b (some none)) (some b) tail (b :: ys) := by
  obtain ⟨-, q, -, rest⟩ := h.forward
  have back : Chain prev tail (ys.reverse ++ b :: a :: []) := by simpa using h.backward
  have forward : Chain next (some b) (b :: ys) := rest.1 ▸ rest
  exact ⟨forward, by simpa using back.unlink h.prev_head⟩

/-- A cell behind a list that is not empty. -/
theorem pushBack (h : DoublyLinked next prev head tail (ys ++ [b])) (ha : a ∉ ys ++ [b]) :
    DoublyLinked (Function.update (Function.update next a (some none)) b (some (some a)))
      (Function.update prev a (some tail)) head (some a) (ys ++ [b, a]) := by
  have reversed : DoublyLinked prev next tail head (b :: ys.reverse) := by simpa using h.reverse
  have outside : a ∉ b :: ys.reverse := by simpa [or_comm] using ha
  simpa using (reversed.pushFront outside).reverse

/-- The list in front of its last cell. -/
theorem popBack (h : DoublyLinked next prev head tail (ys ++ [b, a])) :
    DoublyLinked (Function.update next b (some none)) prev head (some b) (ys ++ [b]) := by
  have reversed : DoublyLinked prev next tail head (a :: b :: ys.reverse) := by
    simpa using h.reverse
  simpa using reversed.popFront.reverse

end DoublyLinked

end Linked
