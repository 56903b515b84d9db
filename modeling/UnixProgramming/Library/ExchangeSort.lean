import Mathlib.Data.List.Basic
import Mathlib.Order.Defs.PartialOrder

/-!
# Sorting by exchanges

Place by place from the front, an element is compared with each one behind it, and the two
are exchanged when the one behind is smaller. The places before `ix` are settled, and the
element at `ix` is the least up to `jx`.
-/

namespace ExchangeSort

variable {α : Type*} {l : List α} {ix jx : Nat} {x y : α}

section Exchange

variable (order : ix < jx) (hx : l[ix]? = some x) (hy : l[jx]? = some y)

include hx hy

theorem exchange_perm : ((l.set ix y).set jx x).Perm l := by
  obtain ⟨insideX, rfl⟩ := List.getElem?_eq_some_iff.mp hx
  obtain ⟨insideY, rfl⟩ := List.getElem?_eq_some_iff.mp hy
  exact List.set_set_perm insideX insideY

include order in
/-- Where the element at a place comes from. -/
theorem getElem?_exchange (b : Nat) : ((l.set ix y).set jx x)[b]? =
    if b = jx then some x else if b = ix then some y else l[b]? := by
  obtain ⟨insideX, -⟩ := List.getElem?_eq_some_iff.mp hx
  obtain ⟨insideY, -⟩ := List.getElem?_eq_some_iff.mp hy
  by_cases atJ : b = jx
  · subst atJ
    simp [insideY]
  · rw [if_neg atJ, List.getElem?_set_ne (Ne.symm atJ)]
    by_cases atI : b = ix
    · subst atI
      simp [insideX]
    · rw [if_neg atI, List.getElem?_set_ne (Ne.symm atI)]

end Exchange

/-- No element behind a place before `ix` is smaller than the element there. -/
def Settled [LE α] (l : List α) (ix : Nat) : Prop :=
  ∀ a b x y, a < ix → a < b → l[a]? = some x → l[b]? = some y → x ≤ y

/-- No element between `ix` and `jx` is smaller than the one at `ix`. -/
def LeastUpTo [LE α] (l : List α) (ix jx : Nat) : Prop :=
  ∀ b x y, ix < b → b < jx → l[ix]? = some x → l[b]? = some y → x ≤ y

variable [Preorder α]

theorem Settled.zero (l : List α) : Settled l 0 := by
  intro a b x y before
  exact absurd before (Nat.not_lt_zero a)

theorem LeastUpTo.start (l : List α) (ix : Nat) : LeastUpTo l ix (ix + 1) := by
  intro b x y behind before
  omega

theorem LeastUpTo.succ (least : LeastUpTo l ix jx) (hx : l[ix]? = some x) (hy : l[jx]? = some y)
    (le : x ≤ y) : LeastUpTo l ix (jx + 1) := by
  intro b v w behind before hv hw
  obtain earlier | rfl := Nat.lt_or_eq_of_le (Nat.le_of_lt_succ before)
  · exact least b v w behind earlier hv hw
  · obtain rfl : x = v := Option.some.inj (hx.symm.trans hv)
    obtain rfl : y = w := Option.some.inj (hy.symm.trans hw)
    exact le

/-- The inner loop ends behind the last element, and the place `ix` is settled too. -/
theorem Settled.succ (settled : Settled l ix) (least : LeastUpTo l ix l.length) :
    Settled l (ix + 1) := by
  intro a b x y before behind hx hy
  obtain earlier | rfl := Nat.lt_or_eq_of_le (Nat.le_of_lt_succ before)
  · exact settled a b x y earlier behind hx hy
  · obtain ⟨inside, -⟩ := List.getElem?_eq_some_iff.mp hy
    exact least b x y behind inside hx hy

/-- With all places but the last one settled, the list is sorted. -/
theorem Settled.pairwise (settled : Settled l ix) (last : l.length ≤ ix + 1) :
    l.Pairwise (· ≤ ·) := by
  rw [List.pairwise_iff_getElem]
  intro a b ha hb behind
  apply settled a b _ _ (by omega) behind
  · exact List.getElem?_eq_getElem ha
  · exact List.getElem?_eq_getElem hb

section Exchange

variable (order : ix < jx) (hx : l[ix]? = some x) (hy : l[jx]? = some y)

include order hx hy

/-- Both elements come from behind the settled places. -/
theorem Settled.exchange (settled : Settled l ix) : Settled ((l.set ix y).set jx x) ix := by
  intro a b v w before behind hv hw
  rw [getElem?_exchange order hx hy, if_neg (by omega), if_neg (by omega)] at hv
  rw [getElem?_exchange order hx hy] at hw
  split at hw
  · exact settled a ix v w before before hv (hx.trans hw)
  · split at hw
    · exact settled a jx v w before (by omega) hv (hy.trans hw)
    · exact settled a b v w before behind hv hw

/-- The smaller element is the least one up to its old place. -/
theorem LeastUpTo.exchange (least : LeastUpTo l ix jx) (smaller : y < x) :
    LeastUpTo ((l.set ix y).set jx x) ix (jx + 1) := by
  intro b v w behind before hv hw
  rw [getElem?_exchange order hx hy, if_neg (Nat.ne_of_lt order), if_pos rfl] at hv
  cases hv
  rw [getElem?_exchange order hx hy] at hw
  split at hw
  · cases hw
    exact le_of_lt smaller
  · rw [if_neg (by omega)] at hw
    have le : x ≤ w := least b x w behind (by omega) hx hw
    exact le_trans (le_of_lt smaller) le

end Exchange

end ExchangeSort
