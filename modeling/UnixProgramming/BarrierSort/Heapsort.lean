import UnixProgramming.BarrierSort.Threads
import Mathlib.Logic.Relation

/-!
# `heapsort` as one call

The whole function with its `size_t` arithmetic and with any comparison function. For a length of
zero the bound of the outer loop is the largest `size_t`, but no round of it has a round of the
inner loop. The steps of a sorting thread are the steps of this call with `complong`.
-/

namespace UnixProgramming.BarrierSort

open CMemory ExchangeSort Fallible

variable {α : Type}

section Source

variable (cmp : α → α → Int)

/-- The body of the inner loop. -/
def exchange (p : List α) (ix jx : UInt64) : Except Fault (List α) := do
  let first ← load p ix.toNat
  let second ← load p jx.toNat
  if cmp first second > 0 then
    let num ← load p ix.toNat
    let smaller ← load p jx.toNat
    let p ← store p ix.toNat smaller
    store p jx.toNat num
  else return p

theorem toNat_succ {jx len : UInt64} (more : jx < len) : (jx + 1).toNat = jx.toNat + 1 := by
  have below := UInt64.lt_iff_toNat_lt.mp more
  have bound := len.toNat_lt
  rw [UInt64.toNat_add, UInt64.toNat_one, Nat.mod_eq_of_lt (by omega)]

/-- The inner loop. -/
def innerLoop (len ix jx : UInt64) (p : List α) : Except Fault (List α) :=
  if jx < len then do
    let p ← exchange cmp p ix jx
    innerLoop len ix (jx + 1) p
  else return p
termination_by len.toNat - jx.toNat
decreasing_by
  rename_i more
  have below := UInt64.lt_iff_toNat_lt.mp more
  rw [toNat_succ more]
  omega

/-- The outer loop. -/
def outerLoop (len ix : UInt64) (p : List α) : Except Fault (List α) :=
  if ix < len - 1 then do
    let p ← innerLoop cmp len ix (ix + 1) p
    outerLoop len (ix + 1) p
  else return p
termination_by (len - 1).toNat - ix.toNat
decreasing_by
  rename_i more
  have below := UInt64.lt_iff_toNat_lt.mp more
  rw [toNat_succ more]
  omega

/-- `heapsort(p, len, sizeof(long), cmp)`. -/
def heapsortCall (len : UInt64) (p : List α) : Except Fault (List α) := outerLoop cmp len 0 p

end Source

/-- With a positive length the bound of the outer loop is the last place. -/
theorem toNat_pred {len : UInt64} (some_ : len ≠ 0) : (len - 1).toNat = len.toNat - 1 := by
  have positive : len.toNat ≠ 0 := fun zero => some_ (UInt64.toNat_inj.mp zero)
  apply UInt64.toNat_sub_of_le
  rw [UInt64.le_iff_toNat_le, UInt64.toNat_one]
  omega

/-- A comparison function that orders all elements, with equals. -/
structure Comparison (α : Type) where
  cmp : α → α → Int
  total : ∀ x y, cmp x y ≤ 0 ∨ cmp y x ≤ 0
  trans : ∀ x y z, cmp x y ≤ 0 → cmp y z ≤ 0 → cmp x z ≤ 0

namespace Comparison

/-- The order of the elements. -/
abbrev preorder (order : Comparison α) : Preorder α where
  le x y := order.cmp x y ≤ 0
  le_refl x := (order.total x x).elim id id
  le_trans := order.trans

/-- `complong` orders by the value. -/
def complong : Comparison Int where
  cmp := BarrierSort.complong
  total x y := by
    have first := @complong_pos x y
    have second := @complong_pos y x
    omega
  trans x y z := by
    have first := @complong_pos x y
    have second := @complong_pos y z
    have third := @complong_pos x z
    omega

end Comparison

section Run

variable [Preorder α] {cmp : α → α → Int}

/-- In front of a test of the inner loop. -/
structure Exchanging (orig p : List α) (ix jx : Nat) : Prop where
  perm : p.Perm orig
  settled : Settled p ix
  least : LeastUpTo p ix jx

variable (agrees : ∀ x y : α, cmp x y ≤ 0 ↔ x ≤ y) (total : ∀ x y : α, x ≤ y ∨ y ≤ x)
  {orig p : List α} {len ix jx : UInt64}

include agrees total

/-- A round of the inner loop loads and stores inside of the array and takes the smaller element
to the front. -/
theorem exchange_keeps (inv : Exchanging orig p ix.toNat jx.toNat) (behind : ix.toNat < jx.toNat)
    (inside : jx.toNat < p.length) :
    ∃ q, exchange cmp p ix jx = .ok q ∧ Exchanging orig q ix.toNat (jx.toNat + 1) := by
  obtain ⟨x, atI⟩ : ∃ x, p[ix.toNat]? = some x :=
    ⟨_, List.getElem?_eq_getElem (Nat.lt_trans behind inside)⟩
  obtain ⟨y, atJ⟩ : ∃ y, p[jx.toNat]? = some y := ⟨_, List.getElem?_eq_getElem inside⟩
  by_cases greater : cmp x y > 0
  · have notLe : ¬ x ≤ y := by
      rw [← agrees]
      omega
    have smaller : y < x := lt_of_le_not_ge ((total x y).resolve_left notLe) notLe
    refine ⟨(p.set ix.toNat y).set jx.toNat x, ?_, ?_, ?_, ?_⟩
    · have insideI : ix.toNat < p.length := Nat.lt_trans behind inside
      have insideJ : jx.toNat < (p.set ix.toNat y).length := by rwa [List.length_set]
      simp only [exchange, load_eq atI, load_eq atJ, ok_bind, if_pos greater, store_eq insideI,
        store_eq insideJ]
    · exact (exchange_perm atI atJ).trans inv.perm
    · exact inv.settled.exchange behind atI atJ
    · exact inv.least.exchange behind atI atJ smaller
  · have le : x ≤ y := (agrees x y).mp (by omega)
    refine ⟨p, ?_, inv.perm, inv.settled, inv.least.succ atI atJ le⟩
    simp only [exchange, load_eq atI, load_eq atJ, ok_bind, if_neg greater, pure_eq_ok]

/-- The inner loop settles the place `ix`. -/
theorem innerLoop_settles (length : orig.length = len.toNat)
    (inv : Exchanging orig p ix.toNat jx.toNat) (behind : ix.toNat < jx.toNat)
    (before : jx.toNat ≤ len.toNat) :
    ∃ q, innerLoop cmp len ix jx p = .ok q ∧ q.Perm orig ∧ Settled q (ix.toNat + 1) := by
  fun_induction innerLoop cmp len ix jx p with
  | case1 jx p more ih =>
      have inside : jx.toNat < p.length := by
        rw [inv.perm.length_eq, length]
        exact UInt64.lt_iff_toNat_lt.mp more
      obtain ⟨q, round, next⟩ := exchange_keeps agrees total inv behind inside
      rw [round, ok_bind]
      rw [← toNat_succ more] at next
      apply ih q next
      · rw [toNat_succ more]
        exact Nat.lt_succ_of_lt behind
      · rw [toNat_succ more]
        exact UInt64.lt_iff_toNat_lt.mp more
  | case2 jx p ended =>
      have all : jx.toNat = p.length := by
        have reached := mt UInt64.lt_iff_toNat_lt.mpr ended
        rw [inv.perm.length_eq, length]
        omega
      exact ⟨p, rfl, inv.perm, inv.settled.succ (all ▸ inv.least)⟩

/-- The outer loop ends with all places but the last one settled. -/
theorem outerLoop_sorts (length : orig.length = len.toNat) (some_ : len ≠ 0)
    (perm : p.Perm orig) (settled : Settled p ix.toNat) :
    ∃ q, outerLoop cmp len ix p = .ok q ∧ q.Perm orig ∧ q.Pairwise (· ≤ ·) := by
  fun_induction outerLoop cmp len ix p with
  | case1 ix p more ih =>
      have before := UInt64.lt_iff_toNat_lt.mp more
      rw [toNat_pred some_] at before
      have next := toNat_succ more
      have start : Exchanging orig p ix.toNat (ix + 1).toNat := ⟨perm, settled, by
        rw [next]
        exact LeastUpTo.start p ix.toNat⟩
      obtain ⟨q, round, perm, settled⟩ :=
        innerLoop_settles agrees total length start (by omega) (by omega)
      rw [round, ok_bind]
      exact ih q perm (next ▸ settled)
  | case2 ix p ended =>
      refine ⟨p, rfl, perm, settled.pairwise ?_⟩
      have reached := mt UInt64.lt_iff_toNat_lt.mpr ended
      rw [toNat_pred some_] at reached
      rw [perm.length_eq, length]
      omega

end Run

/-- Without an element no round of the outer loop does anything. -/
theorem outerLoop_zero (cmp : α → α → Int) (ix : UInt64) (p : List α) :
    outerLoop cmp 0 ix p = .ok p := by
  fun_induction outerLoop cmp 0 ix p with
  | case1 ix p more ih =>
      have none_ : innerLoop cmp 0 ix (ix + 1) p = .ok p := by
        rw [innerLoop, if_neg UInt64.not_lt_zero, pure_eq_ok]
      rw [none_, ok_bind]
      exact ih p
  | case2 ix p ended => rfl

/-- Each call of `heapsort`, on elements of any type, returns, has stayed inside of the array, and
has sorted it. -/
theorem heapsortCall_sorts (order : Comparison α) (len : UInt64) (p : Vector α len.toNat) :
    ∃ q, heapsortCall order.cmp len p.toList = .ok q ∧ q.Perm p.toList ∧
      q.Pairwise fun x y => order.cmp x y ≤ 0 := by
  by_cases none_ : len = 0
  · subst none_
    have empty : p.toList = [] := List.eq_nil_of_length_eq_zero p.length_toList
    refine ⟨p.toList, outerLoop_zero _ _ _, .refl _, ?_⟩
    rw [empty]
    exact .nil
  · let := order.preorder
    exact outerLoop_sorts (fun _ _ => Iff.rfl) order.total p.length_toList none_ (.refl _)
      (Settled.zero p.toList)

/-- Three values with the comparison of this file. -/
theorem heapsortCall_sorts_complong :
    ∃ q, heapsortCall complong 3 [5, -2, 5] = .ok q ∧ q.Perm [5, -2, 5] ∧
      q.Pairwise fun x y => complong x y ≤ 0 :=
  heapsortCall_sorts Comparison.complong 3 #v[5, -2, 5]

section Steps

variable {base len : Nat}

/-- A step of a sorting thread between two places. -/
def Next (base len : Nat) (before after : List Int × Option Loc) : Prop :=
  ∃ loc, before.2 = some loc ∧ heapsort base len before.1 loc = .ok after

/-- A run of a sorting thread. -/
abbrev Leads (base len : Nat) : List Int × Option Loc → List Int × Option Loc → Prop :=
  Relation.ReflTransGen (Next base len)

theorem Leads.single {p : List Int} {loc : Loc} {after : List Int × Option Loc}
    (step : heapsort base len p loc = .ok after) : Leads base len (p, some loc) after :=
  Relation.ReflTransGen.single ⟨loc, rfl, step⟩

/-- A round of the inner loop is the comparison and the three assignments. -/
theorem exchange_leads {p q : List Int} {ix jx : UInt64} (more : jx.toNat < len)
    (round : exchange complong p ix jx = .ok q) :
    Leads 0 len (p, some (.inner ix.toNat jx.toNat))
      (q, some (.inner ix.toNat (jx.toNat + 1))) := by
  obtain ⟨first, loadI, round⟩ := bind_ok round
  obtain ⟨second, loadJ, round⟩ := bind_ok round
  by_cases greater : complong first second > 0
  · rw [if_pos greater] at round
    obtain ⟨num, loadNum, round⟩ := bind_ok round
    obtain ⟨smaller, loadSmaller, round⟩ := bind_ok round
    obtain ⟨middle, storeI, storeJ⟩ := bind_ok round
    have test : Leads 0 len (p, some (.inner ix.toNat jx.toNat))
        (p, some (.save ix.toNat jx.toNat)) := by
      apply Leads.single
      simp only [heapsort, if_pos more, Nat.zero_add, loadI, loadJ, ok_bind, if_pos greater]
    have save : Leads 0 len (p, some (.save ix.toNat jx.toNat))
        (p, some (.put ix.toNat jx.toNat num)) := by
      apply Leads.single
      simp only [heapsort, Nat.zero_add, loadNum, ok_bind]
    have put : Leads 0 len (p, some (.put ix.toNat jx.toNat num))
        (middle, some (.restore ix.toNat jx.toNat num)) := by
      apply Leads.single
      simp only [heapsort, Nat.zero_add, loadSmaller, storeI, ok_bind]
    have restore : Leads 0 len (middle, some (.restore ix.toNat jx.toNat num))
        (q, some (.inner ix.toNat (jx.toNat + 1))) := by
      apply Leads.single
      simp only [heapsort, Nat.zero_add, storeJ, ok_bind]
    exact ((test.trans save).trans put).trans restore
  · rw [if_neg greater] at round
    cases round
    apply Leads.single
    simp only [heapsort, if_pos more, Nat.zero_add, loadI, loadJ, ok_bind, if_neg greater]

theorem innerLoop_leads {p q : List Int} {len ix jx : UInt64}
    (run : innerLoop complong len ix jx p = .ok q) :
    Leads 0 len.toNat (p, some (.inner ix.toNat jx.toNat)) (q, some (.outer (ix.toNat + 1))) := by
  fun_induction innerLoop complong len ix jx p with
  | case1 jx p more ih =>
      obtain ⟨middle, round, rest⟩ := bind_ok run
      have first := exchange_leads (UInt64.lt_iff_toNat_lt.mp more) round
      rw [← toNat_succ more] at first
      exact first.trans (ih middle rest)
  | case2 jx p ended =>
      cases run
      apply Leads.single
      exact if_neg (mt UInt64.lt_iff_toNat_lt.mpr ended)

/-- The bound of the outer loop, also for a length of zero. -/
theorem toNat_pred_eq_lastIndex (len : UInt64) : (len - 1).toNat = lastIndex len.toNat := by
  by_cases none_ : len = 0
  · subst none_
    rfl
  · have positive : len.toNat ≠ 0 := fun zero => none_ (UInt64.toNat_inj.mp zero)
    rw [toNat_pred none_, lastIndex_eq (Nat.one_le_iff_ne_zero.mpr positive)]

theorem outerLoop_leads {p q : List Int} {len ix : UInt64}
    (run : outerLoop complong len ix p = .ok q) :
    Leads 0 len.toNat (p, some (.outer ix.toNat)) (q, none) := by
  fun_induction outerLoop complong len ix p with
  | case1 ix p more ih =>
      obtain ⟨middle, round, rest⟩ := bind_ok run
      have before := UInt64.lt_iff_toNat_lt.mp more
      rw [toNat_pred_eq_lastIndex] at before
      have enter : Leads 0 len.toNat (p, some (.outer ix.toNat))
          (p, some (.inner ix.toNat (ix.toNat + 1))) := by
        apply Leads.single
        simp only [heapsort, if_pos before]
      have inner := innerLoop_leads round
      rw [toNat_succ more] at inner
      have next := ih middle rest
      rw [toNat_succ more] at next
      exact (enter.trans inner).trans next
  | case2 ix p ended =>
      cases run
      have reached := mt UInt64.lt_iff_toNat_lt.mpr ended
      rw [toNat_pred_eq_lastIndex] at reached
      apply Leads.single
      simp only [heapsort, if_neg reached]

/-- A thread that nobody disturbs runs the call. -/
theorem heapsortCall_leads {p q : List Int} {len : UInt64}
    (run : heapsortCall complong len p = .ok q) :
    Leads 0 len.toNat (p, some (.outer 0)) (q, none) :=
  outerLoop_leads run

end Steps

end UnixProgramming.BarrierSort
