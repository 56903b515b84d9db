import UnixProgramming.BarrierSort.Merge

/-!
# The parallel sort, over all interleavings

The threads may run in any order and `pthread_create` may fail. No access is ever outside an
array. The barrier opens only when every segment is sorted, so what `merge` leaves in `snums`
is `nums` in ascending order.
-/

namespace UnixProgramming.BarrierSort

open Transition Segment

variable {NTHR TNUM : Nat} {orig : List Int} {s s' : State} {act : Action} {i : Nat}

/-- What holds of the segment of a thread. -/
def Thread.Inv (orig seg : List Int) : Thread → Prop
  | .unborn => seg = orig
  | .sorting loc => loc.Inv orig seg
  | .waiting | .returned => Sorted orig seg
  | .faulted => False

/-- What holds at a place of `main`. -/
def Main.Inv (NTHR : Nat) (orig : List Int) (s : State) : Main → Prop
  | .create i => ∀ j, i ≤ j → s.thread j = .unborn
  | .waiting | .failed => True
  | .merge => ∀ i, i < NTHR → s.thread i = .returned
  | .returned => (∀ i, i < NTHR → s.thread i = .returned) ∧ Sorted orig s.snums
  | .faulted => False

structure Inv (NTHR TNUM : Nat) (orig : List Int) (s : State) : Prop where
  whole : s.nums.length = NTHR * TNUM
  room : s.snums.length = NTHR * TNUM
  beyond : ∀ i, NTHR ≤ i → s.thread i = .unborn
  thread : ∀ i, i < NTHR → (s.thread i).Inv (piece TNUM i orig) (piece TNUM i s.nums)
  main : s.main.Inv NTHR orig s

namespace Inv

theorem init (size : orig.length = NTHR * TNUM) : Inv NTHR TNUM orig (.init NTHR TNUM orig) :=
  ⟨size, List.length_replicate, fun _ _ => rfl, fun _ _ => rfl, fun _ _ => rfl⟩

theorem thread_lt (inv : Inv NTHR TNUM orig s) (born : s.thread i ≠ .unborn) : i < NTHR := by
  apply Nat.lt_of_not_ge
  intro outside
  exact born (inv.beyond i outside)

theorem unborn (inv : Inv NTHR TNUM orig s) (at_ : s.main = .create i) :
    ∀ j, i ≤ j → s.thread j = .unborn := by
  have main := inv.main
  rwa [at_] at main

theorem returned (inv : Inv NTHR TNUM orig s) (at_ : s.main = .merge) :
    ∀ i, i < NTHR → s.thread i = .returned := by
  have main := inv.main
  rwa [at_] at main

/-- While a thread sorts, `main` has not passed the barrier. -/
theorem main_of_sorting (inv : Inv NTHR TNUM orig s) {loc : Loc} (at_ : s.thread i = .sorting loc)
    (t : State) (others : ∀ j, j ≠ i → t.thread j = s.thread j) : s.main.Inv NTHR orig t := by
  have inside : i < NTHR := inv.thread_lt (by rw [at_]; nofun)
  have main := inv.main
  cases place : s.main with
  | create k =>
      intro j le
      have unborn := inv.unborn place j le
      have apart : j ≠ i := by
        rintro rfl
        cases at_.symm.trans unborn
      rw [others j apart]
      exact unborn
  | waiting => trivial
  | failed => trivial
  | merge => cases at_.symm.trans (inv.returned place i inside)
  | returned =>
      rw [place] at main
      cases at_.symm.trans (main.1 i inside)
  | faulted =>
      rw [place] at main
      exact main

/-- A thread changes its own segment and its own place only. -/
theorem element (inv : Inv NTHR TNUM orig s) (positive : 1 ≤ TNUM) {loc : Loc}
    (at_ : s.thread i = .sorting loc) : Inv NTHR TNUM orig (s.element TNUM i loc) := by
  have inside : i < NTHR := inv.thread_lt (by rw [at_]; nofun)
  have own := inv.thread i inside
  rw [at_] at own
  obtain ⟨⟨nums, next⟩, run, result⟩ := heapsort_step inv.whole inside positive own
  obtain ⟨t, element, thread⟩ : ∃ t : Thread, s.element TNUM i loc =
      { s.setThread i t with nums := nums } ∧
      t.Inv (piece TNUM i orig) (piece TNUM i nums) := by
    have after := result.after
    cases next with
    | none => exact ⟨.waiting, by simp only [State.element, run], after⟩
    | some loc => exact ⟨.sorting loc, by simp only [State.element, run], after⟩
  have self : (s.element TNUM i loc).thread i = t := by
    rw [element]
    exact Function.update_self i t s.thread
  have others (j : Nat) (apart : j ≠ i) : (s.element TNUM i loc).thread j = s.thread j := by
    rw [element]
    exact Function.update_of_ne apart t s.thread
  have nums_eq : (s.element TNUM i loc).nums = nums := by rw [element]
  constructor
  case whole => exact nums_eq ▸ result.whole
  case room =>
    rw [element]
    exact inv.room
  case beyond =>
    intro j outside
    rw [others j (by omega)]
    exact inv.beyond j outside
  case thread =>
    intro j hj
    rw [nums_eq]
    by_cases same : j = i
    · rw [same, self]
      exact thread
    · rw [others j same, result.others j same]
      exact inv.thread j hj
  case main =>
    have main := inv.main_of_sorting at_ (s.element TNUM i loc) others
    have place : (s.element TNUM i loc).main = s.main := by
      rw [element]
      rfl
    rwa [place]

/-- Behind the barrier the whole array is a rearrangement, with every segment sorted. -/
theorem merge (inv : Inv NTHR TNUM orig s) (size : orig.length = NTHR * TNUM)
    (small : ∀ num ∈ orig, num < LONG_MAX) (at_ : s.main = .merge) (min_idx : Nat) :
    Inv NTHR TNUM orig (s.merge NTHR TNUM min_idx) := by
  have returned := inv.returned at_
  have sorted (i : Nat) (hi : i < NTHR) :
      Sorted (piece TNUM i orig) (piece TNUM i s.nums) := by
    have thread := inv.thread i hi
    rwa [returned i hi] at thread
  have perm : s.nums.Perm orig := by
    rw [← flatMap_piece inv.whole, ← flatMap_piece size]
    apply List.Perm.flatMap_left
    intro i mem
    exact (sorted i (List.mem_range.mp mem)).1
  obtain ⟨out, run, merged, ascending⟩ := merge_sorts inv.whole inv.room
    (fun num mem => small num (perm.mem_iff.mp mem)) (fun i hi => (sorted i hi).2) min_idx
  have result : s.merge NTHR TNUM min_idx = { s with snums := out, main := .returned } := by
    simp only [State.merge, run]
  rw [result]
  exact ⟨inv.whole, by rw [merged.length_eq, inv.whole], inv.beyond, inv.thread, returned,
    merged.trans perm, ascending⟩

/-- A thread that is created has its whole segment to sort. -/
theorem create (inv : Inv NTHR TNUM orig s) (at_ : s.main = .create i) (more : i < NTHR) :
    Inv NTHR TNUM orig
      { s.setThread i (.sorting (.outer 0)) with main := .create (i + 1) } := by
  have unborn := inv.unborn at_
  have self : (s.setThread i (.sorting (.outer 0))).thread i = .sorting (.outer 0) :=
    Function.update_self i _ s.thread
  have others (j : Nat) (apart : j ≠ i) :
      (s.setThread i (.sorting (.outer 0))).thread j = s.thread j :=
    Function.update_of_ne apart _ s.thread
  constructor
  case whole => exact inv.whole
  case room => exact inv.room
  case beyond =>
    intro j outside
    exact (others j (by omega)).trans (inv.beyond j outside)
  case thread =>
    intro j hj
    show Thread.Inv _ _ ((s.setThread i (.sorting (.outer 0))).thread j)
    by_cases same : j = i
    · have own := inv.thread i more
      rw [unborn i (Nat.le_refl i)] at own
      rw [same, self]
      exact ⟨List.Perm.of_eq own, ExchangeSort.Settled.zero _⟩
    · rw [others j same]
      exact inv.thread j hj
  case main =>
    intro j later
    exact (others j (by omega)).trans (unborn j (by omega))

/-- All threads that leave the barrier have sorted their segments. -/
theorem barrier (inv : Inv NTHR TNUM orig s) (all : ∀ i, i < NTHR → s.thread i = .waiting) :
    Inv NTHR TNUM orig
      { s with thread := fun i => if i < NTHR then .returned else s.thread i
               main := .merge } := by
  constructor
  case whole => exact inv.whole
  case room => exact inv.room
  case beyond =>
    intro j outside
    exact (if_neg (Nat.not_lt.mpr outside)).trans (inv.beyond j outside)
  case thread =>
    intro j hj
    have own := inv.thread j hj
    rw [all j hj] at own
    show Thread.Inv _ _ (if j < NTHR then .returned else s.thread j)
    rw [if_pos hj]
    exact own
  case main =>
    intro j hj
    exact if_pos hj

theorem step (inv : Inv NTHR TNUM orig s) (positive : 1 ≤ TNUM)
    (size : orig.length = NTHR * TNUM) (small : ∀ num ∈ orig, num < LONG_MAX)
    (h : Step NTHR TNUM s act s') : Inv NTHR TNUM orig s' := by
  cases effect_of_step h with
  | create i at_ more => exact inv.create at_ more
  | failed i at_ more => exact ⟨inv.whole, inv.room, inv.beyond, inv.thread, trivial⟩
  | wait i at_ all => exact ⟨inv.whole, inv.room, inv.beyond, inv.thread, trivial⟩
  | element i loc at_ => exact inv.element positive at_
  | barrier at_ all => exact inv.barrier all
  | merge min_idx at_ => exact inv.merge size small at_ min_idx

end Inv

/-- No thread has stepped outside the array, and neither has `merge`. -/
def State.NoFault (s : State) : Prop := s.main ≠ .faulted ∧ ∀ i, s.thread i ≠ .faulted

/-- For every order of the threads' steps: when `merge` has returned, `snums` is `nums` in
ascending order. -/
theorem parallel_sort {nums : List Int} (positive : 1 ≤ TNUM)
    (size : nums.length = NTHR * TNUM) (small : ∀ num ∈ nums, num < LONG_MAX)
    (h : Reachable (Step NTHR TNUM) (.init NTHR TNUM nums) s) :
    s.NoFault ∧ (s.main = .returned → s.snums.Perm nums ∧ s.snums.Pairwise (· ≤ ·)) := by
  have inv : Inv NTHR TNUM nums s := h.invariant (.init size)
    fun _ _ _ inv hstep => inv.step positive size small hstep
  have main := inv.main
  refine ⟨⟨fun faulted => ?_, fun i faulted => ?_⟩, fun returned => ?_⟩
  · rwa [faulted] at main
  · have inside : i < NTHR := inv.thread_lt (by rw [faulted]; nofun)
    have thread := inv.thread i inside
    rwa [faulted] at thread
  · rw [returned] at main
    exact main.2

/-- Two threads in turn, both with an exchange to make. -/
theorem parallel_sort_alternating :
    ∃ s, Reachable (Step 2 2) (.init 2 2 [4, 1, 3, 2]) s ∧ s.main = .returned ∧
      s.snums = [1, 2, 3, 4] ∧ s.snums.Perm [4, 1, 3, 2] := by
  have run : ∃ s, Steps (Step 2 2) (.init 2 2 [4, 1, 3, 2])
      [.create true, .element 0, .element 0, .create true, .element 0, .element 1, .element 1,
        .element 1, .element 0, .element 1, .wait, .element 0, .element 1, .element 0, .element 0,
        .element 1, .element 1, .barrier, .merge 7] s ∧
      s.main = .returned ∧ s.snums = [1, 2, 3, 4] :=
    ⟨_, Steps.of_foldlM_option rfl, rfl, rfl⟩
  obtain ⟨s, steps, returned, snums⟩ := run
  have reached : Reachable (Step 2 2) (.init 2 2 [4, 1, 3, 2]) s := ⟨_, steps⟩
  have sorted := parallel_sort (by decide) (by rfl) (by decide) reached
  exact ⟨s, reached, returned, snums, (sorted.2 returned).1⟩

end UnixProgramming.BarrierSort
