import UnixProgramming.Library.CMemory
import UnixProgramming.Library.Transition
import Mathlib.Logic.Function.Basic

/-!
# `barier_test1.c`: sorting threads, a barrier and a merge

`NTHR` threads sort a segment of `TNUM` elements each, in one shared array. A step of a thread
is a loop test with its comparison, or one assignment of the exchange. When all threads
and `main` are in `pthread_barrier_wait`, they leave it together, and `main` merges.
-/

namespace UnixProgramming.BarrierSort

open CMemory Transition

def LONG_MAX : Int := 9223372036854775807

def SIZE_MAX : Nat := 18446744073709551615

/-- `len - 1`, of an unsigned type. -/
def lastIndex (len : Nat) : Nat := if len = 0 then SIZE_MAX else len - 1

def complong (l1 l2 : Int) : Int := if l1 = l2 then 0 else if l1 > l2 then 1 else -1

/-- A place in `heapsort`, with the values of its variables. -/
inductive Loc
  | outer (ix : Nat)
  | inner (ix jx : Nat)
  | save (ix jx : Nat)
  | put (ix jx : Nat) (num : Int)
  | restore (ix jx : Nat) (num : Int)
  deriving DecidableEq

/-- One step of `heapsort(&nums[base], len, ..)`. There is no next place when it returns. -/
def heapsort (base len : Nat) (nums : List Int) : Loc → Except Fault (List Int × Option Loc)
  | .outer ix => .ok (nums, if ix < lastIndex len then some (.inner ix (ix + 1)) else none)
  | .inner ix jx =>
      if jx < len then do
        let a ← load nums (base + ix)
        let b ← load nums (base + jx)
        .ok (nums, if complong a b > 0 then some (.save ix jx) else some (.inner ix (jx + 1)))
      else .ok (nums, some (.outer (ix + 1)))
  | .save ix jx => do
      let num ← load nums (base + ix)
      .ok (nums, some (.put ix jx num))
  | .put ix jx num => do
      let b ← load nums (base + jx)
      let nums ← store nums (base + ix) b
      .ok (nums, some (.restore ix jx num))
  | .restore ix jx num => do
      let nums ← store nums (base + jx) num
      .ok (nums, some (.inner ix (jx + 1)))

/-- The least head so far, and the segment it is from. -/
structure Min where
  min_num : Int
  min_idx : Nat

/-- The body of the inner loop of `merge`. -/
def scanHead (TNUM : Nat) (nums : List Int) (idx : List Nat) (m : Min) (i : Nat) :
    Except Fault Min := do
  let start ← load idx i
  if start < (i + 1) * TNUM then
    let num ← load nums start
    if num < m.min_num then .ok ⟨num, i⟩ else .ok m
  else .ok m

structure MergeState where
  idx : List Nat
  min_idx : Nat
  snums : List Int

/-- The body of the outer loop of `merge`. -/
def mergeOne (NTHR TNUM : Nat) (nums : List Int) (st : MergeState) (start_idx : Nat) :
    Except Fault MergeState := do
  let m ← (List.range NTHR).foldlM (scanHead TNUM nums st.idx) ⟨LONG_MAX, st.min_idx⟩
  let start ← load st.idx m.min_idx
  let num ← load nums start
  let snums ← store st.snums start_idx num
  let idx ← store st.idx m.min_idx (start + 1)
  .ok ⟨idx, m.min_idx, snums⟩

/-- The variable `min_idx` is not initialised, so it starts with any value. -/
def merge (NTHR TNUM : Nat) (nums snums : List Int) (min_idx : Nat) :
    Except Fault (List Int) := do
  let idx := (List.range NTHR).map (· * TNUM)
  let st ← (List.range (NTHR * TNUM)).foldlM (mergeOne NTHR TNUM nums) ⟨idx, min_idx, snums⟩
  .ok st.snums

inductive Thread
  | unborn
  | sorting (loc : Loc)
  | waiting
  | returned
  | faulted
  deriving DecidableEq

inductive Main
  | create (i : Nat)
  | waiting
  | merge
  | returned
  | failed
  | faulted
  deriving DecidableEq

structure State where
  nums : List Int
  snums : List Int
  thread : Nat → Thread
  main : Main

inductive Action
  /-- `pthread_create`. If it fails, `err_ret` returns from `barrier_test`. -/
  | create (ok : Bool)
  | wait
  | element (i : Nat)
  | barrier
  | merge (min_idx : Nat)

namespace State

/-- The arrays before the threads are created. -/
def init (NTHR TNUM : Nat) (nums : List Int) : State :=
  ⟨nums, List.replicate (NTHR * TNUM) 0, fun _ => .unborn, .create 0⟩

def setThread (s : State) (i : Nat) (t : Thread) : State :=
  { s with thread := Function.update s.thread i t }

/-- A step of thread `i` in `thread_fun`. -/
def element (TNUM : Nat) (s : State) (i : Nat) (loc : Loc) : State :=
  match heapsort (i * TNUM) TNUM s.nums loc with
  | .ok (nums, some next) => { s.setThread i (.sorting next) with nums := nums }
  | .ok (nums, none) => { s.setThread i .waiting with nums := nums }
  | .error _ => s.setThread i .faulted

/-- `merge()` and the return of `barrier_test`. -/
def merge (NTHR TNUM : Nat) (s : State) (min_idx : Nat) : State :=
  match BarrierSort.merge NTHR TNUM s.nums s.snums min_idx with
  | .ok snums => { s with snums := snums, main := .returned }
  | .error _ => { s with main := .faulted }

def step (NTHR TNUM : Nat) (s : State) : Action → Option State
  | .create ok =>
      match s.main with
      | .create i =>
          if i < NTHR then
            if ok then some { s.setThread i (.sorting (.outer 0)) with main := .create (i + 1) }
            else some { s with main := .failed }
          else none
      | _ => none
  | .wait =>
      match s.main with
      | .create i => if NTHR ≤ i then some { s with main := .waiting } else none
      | _ => none
  | .element i =>
      match s.thread i with
      | .sorting loc => some (s.element TNUM i loc)
      | _ => none
  | .barrier =>
      if s.main = .waiting ∧ ∀ i, i < NTHR → s.thread i = .waiting then
        some { s with thread := fun i => if i < NTHR then .returned else s.thread i
                      main := .merge }
      else none
  | .merge min_idx => if s.main = .merge then some (s.merge NTHR TNUM min_idx) else none

end State

def Step (NTHR TNUM : Nat) (s : State) (act : Action) (s' : State) : Prop :=
  s.step NTHR TNUM act = some s'

/-- What one step can do. -/
inductive Effect (NTHR TNUM : Nat) (s : State) : Action → State → Prop
  | create (i : Nat) (at_ : s.main = .create i) (more : i < NTHR) :
      Effect NTHR TNUM s (.create true)
        { s.setThread i (.sorting (.outer 0)) with main := .create (i + 1) }
  | failed (i : Nat) (at_ : s.main = .create i) (more : i < NTHR) :
      Effect NTHR TNUM s (.create false) { s with main := .failed }
  | wait (i : Nat) (at_ : s.main = .create i) (all : NTHR ≤ i) :
      Effect NTHR TNUM s .wait { s with main := .waiting }
  | element (i : Nat) (loc : Loc) (at_ : s.thread i = .sorting loc) :
      Effect NTHR TNUM s (.element i) (s.element TNUM i loc)
  | barrier (at_ : s.main = .waiting) (all : ∀ i, i < NTHR → s.thread i = .waiting) :
      Effect NTHR TNUM s .barrier
        { s with thread := fun i => if i < NTHR then .returned else s.thread i
                 main := .merge }
  | merge (min_idx : Nat) (at_ : s.main = .merge) :
      Effect NTHR TNUM s (.merge min_idx) (s.merge NTHR TNUM min_idx)

theorem effect_of_step {NTHR TNUM : Nat} {s s' : State} {act : Action}
    (h : Step NTHR TNUM s act s') : Effect NTHR TNUM s act s' := by
  cases act with
  | create ok =>
      simp only [Step, State.step] at h
      split at h
      · rename_i i at_
        obtain ⟨more, h⟩ := Option.ite_none_right_eq_some.mp h
        cases ok with
        | true =>
            cases h
            exact .create i at_ more
        | false =>
            cases h
            exact .failed i at_ more
      · cases h
  | wait =>
      simp only [Step, State.step] at h
      split at h
      · rename_i i at_
        obtain ⟨all, h⟩ := Option.ite_none_right_eq_some.mp h
        cases h
        exact .wait i at_ all
      · cases h
  | element i =>
      simp only [Step, State.step] at h
      split at h
      · rename_i loc at_
        cases h
        exact .element i loc at_
      · cases h
  | barrier =>
      obtain ⟨⟨at_, all⟩, h⟩ := Option.ite_none_right_eq_some.mp h
      cases h
      exact .barrier at_ all
  | merge min_idx =>
      obtain ⟨at_, h⟩ := Option.ite_none_right_eq_some.mp h
      cases h
      exact .merge min_idx at_

end UnixProgramming.BarrierSort
