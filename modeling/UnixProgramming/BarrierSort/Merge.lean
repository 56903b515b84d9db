import UnixProgramming.BarrierSort.Threads
import UnixProgramming.Library.Merge

/-!
# `merge` on sorted segments

The cursors cut a run off each segment, which is what is left of it. The scan finds the run with
the least head, as the elements are smaller than the `LONG_MAX` that it starts from. So each
round of the outer loop is one step of a merge.
-/

namespace UnixProgramming.BarrierSort

open CMemory Segment Merge

variable {NTHR TNUM : Nat} {nums : List Int} {idx : List Nat}

/-- What is left of the segments. -/
def runs (TNUM : Nat) (nums : List Int) (idx : List Nat) : List (List Int) :=
  idx.mapIdx fun i start => (nums.take ((i + 1) * TNUM)).drop start

/-- The first element that is left of segment `i`. -/
def Head (TNUM : Nat) (nums : List Int) (idx : List Nat) (i : Nat) (num : Int) : Prop :=
  ∃ start, idx[i]? = some start ∧ start < (i + 1) * TNUM ∧ nums[start]? = some num

theorem run_cons {start stop : Nat} {num : Int} (inside : start < stop)
    (at_ : nums[start]? = some num) :
    (nums.take stop).drop start = num :: (nums.take stop).drop (start + 1) := by
  have front : (nums.take stop)[start]? = some num := by
    rwa [List.getElem?_take_of_lt inside]
  obtain ⟨bound, rfl⟩ := List.getElem?_eq_some_iff.mp front
  exact List.drop_eq_getElem_cons bound

theorem runs_of_head {i start : Nat} {num : Int} (at_ : idx[i]? = some start)
    (inside : start < (i + 1) * TNUM) (num_at : nums[start]? = some num) :
    (runs TNUM nums idx)[i]? =
      some (num :: (nums.take ((i + 1) * TNUM)).drop (start + 1)) := by
  rw [runs, List.getElem?_mapIdx, at_, Option.map_some, run_cons inside num_at]

/-- A run that is not empty starts with the head of its segment. -/
theorem head_of_runs {i : Nat} {num : Int} {rest : List Int}
    (h : (runs TNUM nums idx)[i]? = some (num :: rest)) :
    i < idx.length ∧ Head TNUM nums idx i num := by
  rw [runs, List.getElem?_mapIdx] at h
  obtain ⟨start, at_, run⟩ := Option.map_eq_some_iff.mp h
  have first : (nums.take ((i + 1) * TNUM))[start]? = some num := by
    have head := congrArg List.head? run
    rwa [List.head?_drop] at head
  obtain ⟨bound, -⟩ := List.getElem?_eq_some_iff.mp first
  rw [List.length_take] at bound
  have inside : start < (i + 1) * TNUM := by omega
  rw [List.getElem?_take_of_lt inside] at first
  exact ⟨(List.getElem?_eq_some_iff.mp at_).1, start, at_, inside, first⟩

/-- The scan of the first `n` segments. Its result is the start value, or the head of a
segment, and no head that it has seen is smaller. -/
structure Scanned (TNUM : Nat) (nums : List Int) (idx : List Nat) (n : Nat) (m : Min) : Prop where
  least : ∀ i num, i < n → Head TNUM nums idx i num → m.min_num ≤ num
  found : m.min_num = LONG_MAX ∨ Head TNUM nums idx m.min_idx m.min_num

theorem Scanned.start (min_idx : Nat) : Scanned TNUM nums idx 0 ⟨LONG_MAX, min_idx⟩ :=
  ⟨fun i _ before => absurd before (Nat.not_lt_zero i), .inl rfl⟩

theorem Scanned.step {n : Nat} {m : Min} (scanned : Scanned TNUM nums idx n m)
    (more : n < idx.length) (room : (n + 1) * TNUM ≤ nums.length) :
    ∃ next, scanHead TNUM nums idx m n = .ok next ∧ Scanned TNUM nums idx (n + 1) next := by
  obtain ⟨start, at_⟩ : ∃ start, idx[n]? = some start := ⟨_, List.getElem?_eq_getElem more⟩
  have keep {next : Min} (own : ∀ num, Head TNUM nums idx n num → next.min_num ≤ num)
      (le : next.min_num ≤ m.min_num)
      (found : next.min_num = LONG_MAX ∨ Head TNUM nums idx next.min_idx next.min_num) :
      Scanned TNUM nums idx (n + 1) next := by
    refine ⟨fun i num before head => ?_, found⟩
    obtain earlier | rfl := Nat.lt_or_eq_of_le (Nat.le_of_lt_succ before)
    · exact le_trans le (scanned.least i num earlier head)
    · exact own num head
  by_cases live : start < (n + 1) * TNUM
  · obtain ⟨num, num_at⟩ : ∃ num, nums[start]? = some num :=
      ⟨_, List.getElem?_eq_getElem (Nat.lt_of_lt_of_le live room)⟩
    have head : Head TNUM nums idx n num := ⟨start, at_, live, num_at⟩
    have unique (other : Int) (h : Head TNUM nums idx n other) : num = other := by
      obtain ⟨start', at', -, num'⟩ := h
      rw [at_] at at'
      cases at'
      exact Option.some.inj (num_at.symm.trans num')
    by_cases smaller : num < m.min_num
    · refine ⟨⟨num, n⟩, ?_, keep (fun other h => le_of_eq (unique other h)) (le_of_lt smaller)
        (.inr head)⟩
      simp only [scanHead, load_eq at_, load_eq num_at, Fallible.ok_bind, if_pos live,
        if_pos smaller]
    · refine ⟨m, ?_, keep (fun other h => ?_) (le_refl _) scanned.found⟩
      · simp only [scanHead, load_eq at_, load_eq num_at, Fallible.ok_bind, if_pos live,
          if_neg smaller]
      · rw [← unique other h]
        exact not_lt.mp smaller
  · refine ⟨m, ?_, keep (fun other h => ?_) (le_refl _) scanned.found⟩
    · simp only [scanHead, load_eq at_, Fallible.ok_bind, if_neg live]
    · obtain ⟨start', at', inside, -⟩ := h
      rw [at_] at at'
      cases at'
      exact absurd inside live

theorem exists_scanned (length : idx.length = NTHR) (whole : nums.length = NTHR * TNUM)
    (min_idx : Nat) :
    ∃ m, (List.range NTHR).foldlM (scanHead TNUM nums idx) ⟨LONG_MAX, min_idx⟩ = .ok m ∧
      Scanned TNUM nums idx NTHR m := by
  apply Fallible.foldlM_range (Scanned.start min_idx)
  intro n m more scanned
  exact scanned.step (by omega) (whole ▸ Nat.mul_le_mul_right TNUM more)

/-- The state of `merge` behind `k` rounds of the outer loop. -/
structure Merged (NTHR TNUM : Nat) (nums : List Int) (k : Nat) (st : MergeState) : Prop where
  idx : st.idx.length = NTHR
  snums : st.snums.length = NTHR * TNUM
  merging : Merging nums (st.snums.take k) (runs TNUM nums st.idx)

/-- The elements are smaller than `LONG_MAX`, so the scan finds the least head. -/
theorem exists_least {k : Nat} {st : MergeState} (merged : Merged NTHR TNUM nums k st)
    (whole : nums.length = NTHR * TNUM) (small : ∀ num ∈ nums, num < LONG_MAX)
    (more : k < NTHR * TNUM) :
    ∃ m, (List.range NTHR).foldlM (scanHead TNUM nums st.idx) ⟨LONG_MAX, st.min_idx⟩ = .ok m ∧
      Head TNUM nums st.idx m.min_idx m.min_num ∧
      ∀ i num, i < NTHR → Head TNUM nums st.idx i num → m.min_num ≤ num := by
  obtain ⟨m, run, scanned⟩ := exists_scanned merged.idx whole st.min_idx
  refine ⟨m, run, ?_, scanned.least⟩
  obtain sentinel | head := scanned.found
  · have short : (st.snums.take k).length < nums.length := by
      rw [List.length_take, merged.snums, whole]
      omega
    obtain ⟨i, num, rest, at_⟩ := merged.merging.exists_head short
    obtain ⟨inside, head⟩ := head_of_runs at_
    have le := scanned.least i num (by rwa [← merged.idx]) head
    obtain ⟨start, -, -, num_at⟩ := head
    have lt := small num (List.mem_of_getElem? num_at)
    omega
  · exact head

/-- One round of the outer loop is a step of the merge. -/
theorem Merged.step {k : Nat} {st : MergeState} (merged : Merged NTHR TNUM nums k st)
    (whole : nums.length = NTHR * TNUM) (small : ∀ num ∈ nums, num < LONG_MAX)
    (more : k < NTHR * TNUM) :
    ∃ next, mergeOne NTHR TNUM nums st k = .ok next ∧ Merged NTHR TNUM nums (k + 1) next := by
  obtain ⟨m, scan, ⟨start, at_, inside, num_at⟩, least⟩ := exists_least merged whole small more
  have room : k < st.snums.length := by rwa [merged.snums]
  have bound : m.min_idx < st.idx.length := (List.getElem?_eq_some_iff.mp at_).1
  refine ⟨⟨st.idx.set m.min_idx (start + 1), m.min_idx, st.snums.set k m.min_num⟩, ?_, ?_, ?_, ?_⟩
  · simp only [mergeOne, scan, load_eq at_, load_eq num_at, store_eq room, store_eq bound,
      Fallible.ok_bind]
  · rw [List.length_set, merged.idx]
  · rw [List.length_set, merged.snums]
  · have out : (st.snums.set k m.min_num).take (k + 1) = st.snums.take k ++ [m.min_num] := by
      rw [List.take_add_one, List.take_set_of_le (Nat.le_refl k), List.getElem?_set_self room]
      rfl
    have left : runs TNUM nums (st.idx.set m.min_idx (start + 1)) =
        (runs TNUM nums st.idx).set m.min_idx
          ((nums.take ((m.min_idx + 1) * TNUM)).drop (start + 1)) := by
      rw [runs, List.mapIdx_set, runs]
    rw [out, left]
    apply merged.merging.step (runs_of_head at_ inside num_at)
    intro run mem num first
    obtain ⟨i, run_at⟩ := List.mem_iff_getElem?.mp mem
    cases run with
    | nil => cases first
    | cons head rest =>
        cases first
        obtain ⟨bound', head'⟩ := head_of_runs run_at
        exact least i _ (by rwa [← merged.idx]) head'

/-- At the start all of each segment is left. -/
theorem Merged.start {snums : List Int} (whole : nums.length = NTHR * TNUM)
    (room : snums.length = NTHR * TNUM)
    (sorted : ∀ i, i < NTHR → (piece TNUM i nums).Pairwise (· ≤ ·)) (min_idx : Nat) :
    Merged NTHR TNUM nums 0 ⟨(List.range NTHR).map (· * TNUM), min_idx, snums⟩ := by
  refine ⟨by rw [List.length_map, List.length_range], room, ?_⟩
  have segments : runs TNUM nums ((List.range NTHR).map (· * TNUM)) =
      (List.range NTHR).map fun i => piece TNUM i nums := by
    apply List.ext_getElem?
    intro i
    rw [runs, List.getElem?_mapIdx, List.getElem?_map, List.getElem?_map]
    obtain inside | outside := Nat.lt_or_ge i NTHR
    · have size : (i + 1) * TNUM - i * TNUM = TNUM := by
        rw [Nat.succ_mul, Nat.add_sub_cancel_left]
      simp only [List.getElem?_range inside, Option.map_some, List.drop_take, size, piece]
    · simp [outside]
  have flat : ((List.range NTHR).map fun i => piece TNUM i nums).flatten = nums :=
    flatMap_piece whole
  have start : Merging ((List.range NTHR).map fun i => piece TNUM i nums).flatten []
      ((List.range NTHR).map fun i => piece TNUM i nums) := by
    apply Merging.start
    intro run mem
    obtain ⟨i, inside, rfl⟩ := List.mem_map.mp mem
    exact sorted i (List.mem_range.mp inside)
  rw [segments]
  rwa [flat] at start

/-- `merge` on sorted segments. -/
theorem merge_sorts {snums : List Int} (whole : nums.length = NTHR * TNUM)
    (room : snums.length = NTHR * TNUM) (small : ∀ num ∈ nums, num < LONG_MAX)
    (sorted : ∀ i, i < NTHR → (piece TNUM i nums).Pairwise (· ≤ ·)) (min_idx : Nat) :
    ∃ out, merge NTHR TNUM nums snums min_idx = .ok out ∧ Sorted nums out := by
  obtain ⟨st, run, merged⟩ := Fallible.foldlM_range (n := NTHR * TNUM)
    (Merged.start whole room sorted min_idx)
    fun k st more merged => merged.step whole small more
  have all : st.snums.take (NTHR * TNUM) = st.snums := by
    rw [← merged.snums, List.take_length]
  have merging := merged.merging
  rw [all] at merging
  refine ⟨st.snums, ?_, merging.perm_of_length ?_, merging.sorted⟩
  · simp only [merge, run, Fallible.ok_bind]
  · rw [merged.snums, whole]

end UnixProgramming.BarrierSort
