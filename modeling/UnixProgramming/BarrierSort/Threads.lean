import UnixProgramming.BarrierSort.Program
import UnixProgramming.Library.ExchangeSort
import UnixProgramming.Library.Fallible
import UnixProgramming.Library.Segment
import Mathlib.Data.Int.Order.Basic

/-!
# A sorting thread works on its own segment

A step of `heapsort` reads and writes the thread's segment of the shared array alone. On the
segment it is a step of an exchange sort, so the segment stays a rearrangement of what it was,
and is sorted when `heapsort` returns.
-/

namespace UnixProgramming.BarrierSort

open CMemory ExchangeSort Segment

/-- Between the test and the end of an exchange. -/
structure Swapping (orig l : List Int) (ix jx : Nat) : Prop where
  order : ix < jx
  inside : jx < l.length
  perm : l.Perm orig
  settled : Settled l ix
  least : LeastUpTo l ix jx
  smaller : ∀ x y, l[ix]? = some x → l[jx]? = some y → y < x

/-- What holds of the segment at a place of `heapsort`. During an exchange it is said of the
segment before the first assignment. -/
def Loc.Inv (orig seg : List Int) : Loc → Prop
  | .outer ix => seg.Perm orig ∧ Settled seg ix
  | .inner ix jx =>
      ix < jx ∧ jx ≤ seg.length ∧ seg.Perm orig ∧ Settled seg ix ∧ LeastUpTo seg ix jx
  | .save ix jx => Swapping orig seg ix jx
  | .put ix jx num => Swapping orig seg ix jx ∧ seg[ix]? = some num
  | .restore ix jx num => ∃ before y, Swapping orig before ix jx ∧ before[ix]? = some num ∧
      before[jx]? = some y ∧ seg = before.set ix y

/-- What `heapsort` leaves behind. -/
def Sorted (orig seg : List Int) : Prop := seg.Perm orig ∧ seg.Pairwise (· ≤ ·)

/-- What holds behind a step, on the way or at the end. -/
def After (orig seg : List Int) : Option Loc → Prop
  | some loc => loc.Inv orig seg
  | none => Sorted orig seg

theorem complong_pos {l1 l2 : Int} : complong l1 l2 > 0 ↔ l2 < l1 := by
  rw [complong]
  split
  · omega
  · split <;> omega

theorem lastIndex_eq {len : Nat} (positive : 1 ≤ len) : lastIndex len = len - 1 :=
  if_neg (Nat.one_le_iff_ne_zero.mp positive)

/-- A step on the segment that thread `i` sorts. The other segments stay as they are. -/
structure Local (n size i : Nat) (orig nums : List Int) (result : List Int × Option Loc) :
    Prop where
  whole : result.1.length = n * size
  after : After orig (piece size i result.1) result.2
  others : ∀ j, j ≠ i → piece size j result.1 = piece size j nums

section Step

variable {n size i : Nat} {orig nums : List Int}

theorem Local.of_same (whole : nums.length = n * size) {next : Option Loc}
    (after : After orig (piece size i nums) next) : Local n size i orig nums (nums, next) :=
  ⟨whole, after, fun _ _ => rfl⟩

theorem Local.of_set (whole : nums.length = n * size) {k : Nat} {c : Int} {next : Option Loc}
    (inside : k < size) (after : After orig ((piece size i nums).set k c) next) :
    Local n size i orig nums (nums.set (i * size + k) c, next) where
  whole := by rw [List.length_set, whole]
  after := by
    show After orig (piece size i (nums.set (i * size + k) c)) next
    rwa [piece_set_self]
  others j apart := piece_set_of_ne inside apart c

/-- An element of the segment is an element of the array. -/
theorem exists_element (whole : nums.length = n * size) (hi : i < n) {k : Nat}
    (inside : k < size) :
    ∃ c, (piece size i nums)[k]? = some c ∧ load nums (i * size + k) = .ok c := by
  have bound : k < (piece size i nums).length := by rwa [length_piece whole hi]
  have at_ := List.getElem?_eq_getElem bound
  refine ⟨_, at_, load_eq ?_⟩
  rw [← getElem?_piece inside, at_]

/-- The comparison, or the end of the inner loop. -/
theorem inner_step (whole : nums.length = n * size) (hi : i < n) {ix jx : Nat}
    (inv : (Loc.inner ix jx).Inv orig (piece size i nums)) :
    ∃ result, heapsort (i * size) size nums (.inner ix jx) = .ok result ∧
      Local n size i orig nums result := by
  have length := length_piece whole hi
  obtain ⟨order, inside, perm, settled, least⟩ := inv
  by_cases more : jx < size
  · obtain ⟨a, atI, loadI⟩ := exists_element whole hi (Nat.lt_trans order more)
    obtain ⟨b, atJ, loadJ⟩ := exists_element whole hi more
    refine ⟨(nums, if complong a b > 0 then some (.save ix jx) else some (.inner ix (jx + 1))),
      ?_, .of_same whole ?_⟩
    · simp only [heapsort, if_pos more, loadI, loadJ, Fallible.ok_bind]
    · split
      · rename_i greater
        refine ⟨order, by omega, perm, settled, least, ?_⟩
        intro x y hx hy
        obtain rfl : a = x := Option.some.inj (atI.symm.trans hx)
        obtain rfl : b = y := Option.some.inj (atJ.symm.trans hy)
        exact complong_pos.mp greater
      · rename_i notGreater
        have le : a ≤ b := by
          apply Int.not_lt.mp
          intro lt
          exact notGreater (complong_pos.mpr lt)
        exact ⟨by omega, by omega, perm, settled, least.succ atI atJ le⟩
  · refine ⟨(nums, some (.outer (ix + 1))), if_neg more, .of_same whole ⟨perm, ?_⟩⟩
    have ended : jx = (piece size i nums).length := by omega
    exact settled.succ (ended ▸ least)

/-- Each step of `heapsort` succeeds and keeps what holds of the segment. -/
theorem heapsort_step (whole : nums.length = n * size) (hi : i < n) (positive : 1 ≤ size)
    {loc : Loc} (inv : loc.Inv orig (piece size i nums)) :
    ∃ result, heapsort (i * size) size nums loc = .ok result ∧ Local n size i orig nums result := by
  have length := length_piece whole hi
  cases loc with
  | outer ix =>
      obtain ⟨perm, settled⟩ := inv
      refine ⟨_, rfl, .of_same whole ?_⟩
      rw [lastIndex_eq positive]
      split
      · exact ⟨Nat.lt_succ_self ix, by omega, perm, settled, .start _ ix⟩
      · exact ⟨perm, settled.pairwise (by omega)⟩
  | inner ix jx => exact inner_step whole hi inv
  | save ix jx =>
      have order := inv.order
      have inside := inv.inside
      obtain ⟨num, at_, load⟩ := exists_element whole hi (show ix < size by omega)
      refine ⟨(nums, some (.put ix jx num)), ?_, .of_same whole ⟨inv, at_⟩⟩
      simp only [heapsort, load, Fallible.ok_bind]
  | put ix jx num =>
      obtain ⟨swapping, at_⟩ := inv
      have order := swapping.order
      have inside := swapping.inside
      obtain ⟨b, atJ, load⟩ := exists_element whole hi (show jx < size by omega)
      have room : i * size + ix < nums.length := whole ▸ add_lt_mul (by omega) hi
      refine ⟨(nums.set (i * size + ix) b, some (.restore ix jx num)), ?_,
        .of_set whole (by omega) ⟨piece size i nums, b, swapping, at_, atJ, rfl⟩⟩
      simp only [heapsort, load, store_eq room, Fallible.ok_bind]
  | restore ix jx num =>
      obtain ⟨before, y, swapping, hx, hy, seg⟩ := inv
      have order := swapping.order
      have inside := swapping.inside
      have same : before.length = size := by rw [← length, seg, List.length_set]
      have room : i * size + jx < nums.length := whole ▸ add_lt_mul (by omega) hi
      refine ⟨(nums.set (i * size + jx) num, some (.inner ix (jx + 1))), ?_,
        .of_set whole (by omega) ?_⟩
      · simp only [heapsort, store_eq room, Fallible.ok_bind]
      · rw [seg]
        refine ⟨by omega, ?_, (exchange_perm hx hy).trans swapping.perm,
          swapping.settled.exchange order hx hy, ?_⟩
        · rw [List.length_set, List.length_set]
          omega
        · exact swapping.least.exchange order hx hy (swapping.smaller num y hx hy)

end Step

end UnixProgramming.BarrierSort
