import UnixProgramming.BarrierSort.Merge

/-!
# What the rounds of `merge` select

The scan of a round is marked when it assigns `min_idx`, and the round is noted with the cursors
that it has selected from. The scan starts from `LONG_MAX` and takes smaller elements only, so a
head of `LONG_MAX` is never taken: a round that has only such heads left goes on with the
`min_idx` of an earlier round.
-/

namespace UnixProgramming.BarrierSort

open CMemory Segment Merge Fallible

/-- The least head so far, and whether this scan has assigned it. -/
structure Marked where
  min : Min
  assigned : Bool

/-- `scanHead` with the mark. -/
def scanMarked (TNUM : Nat) (nums : List Int) (idx : List Nat) (m : Marked) (i : Nat) :
    Except Fault Marked := do
  let start ← load idx i
  if start < (i + 1) * TNUM then
    let num ← load nums start
    if num < m.min.min_num then .ok ⟨⟨num, i⟩, true⟩ else .ok m
  else .ok m

/-- The selection of a round, and the cursors in front of it. -/
structure Round where
  assigned : Bool
  idx : List Nat
  min_idx : Nat
  num : Int

structure Notes where
  rounds : List Round
  st : MergeState

/-- `mergeOne` with its note. -/
def noteOne (NTHR TNUM : Nat) (nums : List Int) (notes : Notes) (start_idx : Nat) :
    Except Fault Notes := do
  let st := notes.st
  let m ← (List.range NTHR).foldlM (scanMarked TNUM nums st.idx) ⟨⟨LONG_MAX, st.min_idx⟩, false⟩
  let start ← load st.idx m.min.min_idx
  let num ← load nums start
  let snums ← store st.snums start_idx num
  let idx ← store st.idx m.min.min_idx (start + 1)
  .ok ⟨notes.rounds ++ [⟨m.assigned, st.idx, m.min.min_idx, num⟩], idx, m.min.min_idx, snums⟩

/-- `merge` with the notes of its rounds. -/
def mergeNotes (NTHR TNUM : Nat) (nums snums : List Int) (min_idx : Nat) : Except Fault Notes :=
  let idx := (List.range NTHR).map (· * TNUM)
  (List.range (NTHR * TNUM)).foldlM (noteOne NTHR TNUM nums) ⟨[], idx, min_idx, snums⟩

variable {NTHR TNUM : Nat} {nums : List Int} {idx : List Nat}

theorem scanMarked_min (m : Marked) (i : Nat) :
    (scanMarked TNUM nums idx m i).map Marked.min = scanHead TNUM nums idx m.min i := by
  simp only [scanMarked, scanHead, map_bind, apply_ite (Except.map Marked.min)]
  rfl

/-- The scan of a round, without its marks. -/
theorem foldlM_scanMarked (min_idx : Nat) :
    ((List.range NTHR).foldlM (scanMarked TNUM nums idx) ⟨⟨LONG_MAX, min_idx⟩, false⟩).map
      Marked.min = (List.range NTHR).foldlM (scanHead TNUM nums idx) ⟨LONG_MAX, min_idx⟩ :=
  map_foldlM scanMarked_min _ _

/-- A round without its note. -/
theorem noteOne_st (notes : Notes) (k : Nat) :
    (noteOne NTHR TNUM nums notes k).map Notes.st = mergeOne NTHR TNUM nums notes.st k := by
  rw [mergeOne, ← foldlM_scanMarked, bind_map]
  simp only [noteOne, map_bind]
  rfl

/-- The notes do not change what `merge` does. -/
theorem mergeNotes_snums (snums : List Int) (min_idx : Nat) :
    (mergeNotes NTHR TNUM nums snums min_idx).map (fun notes => notes.st.snums) =
      merge NTHR TNUM nums snums min_idx := by
  have erased := map_foldlM (@noteOne_st NTHR TNUM nums) (List.range (NTHR * TNUM))
    ⟨[], (List.range NTHR).map (· * TNUM), min_idx, snums⟩
  rw [merge, ← erased, bind_map, mergeNotes]
  rfl

/-- What a round that succeeds has done. -/
theorem noteOne_ok {notes next : Notes} {k : Nat}
    (round : noteOne NTHR TNUM nums notes k = .ok next) :
    ∃ m start num,
      (List.range NTHR).foldlM (scanMarked TNUM nums notes.st.idx)
        ⟨⟨LONG_MAX, notes.st.min_idx⟩, false⟩ = .ok m ∧
      notes.st.idx[m.min.min_idx]? = some start ∧ nums[start]? = some num ∧
      k < notes.st.snums.length ∧
      next = ⟨notes.rounds ++ [⟨m.assigned, notes.st.idx, m.min.min_idx, num⟩],
        notes.st.idx.set m.min.min_idx (start + 1), m.min.min_idx, notes.st.snums.set k num⟩ := by
  obtain ⟨m, scan, round⟩ := bind_ok round
  obtain ⟨start, at_, round⟩ := bind_ok round
  obtain ⟨num, num_at, round⟩ := bind_ok round
  obtain ⟨snums, stored, round⟩ := bind_ok round
  obtain ⟨idx, moved, round⟩ := bind_ok round
  obtain ⟨room, rfl⟩ := store_ok stored
  obtain ⟨-, rfl⟩ := store_ok moved
  cases round
  exact ⟨m, start, num, scan, load_ok at_, load_ok num_at, room, rfl⟩

/-- The mark says that the scan has left its start value, and then `min_idx` is the place of the
least head. -/
structure Marks (nums : List Int) (idx : List Nat) (m : Marked) : Prop where
  le : m.min.min_num ≤ LONG_MAX
  assigned : m.assigned = true ↔ m.min.min_num < LONG_MAX
  place : m.assigned = true →
    ∃ start, idx[m.min.min_idx]? = some start ∧ nums[start]? = some m.min.min_num

theorem Marks.start (min_idx : Nat) : Marks nums idx ⟨⟨LONG_MAX, min_idx⟩, false⟩ :=
  ⟨le_refl _, ⟨nofun, fun lt => absurd lt (lt_irrefl _)⟩, nofun⟩

theorem Marks.step {m next : Marked} {i : Nat} (marks : Marks nums idx m)
    (scan : scanMarked TNUM nums idx m i = .ok next) : Marks nums idx next := by
  obtain ⟨start, at_, scan⟩ := bind_ok scan
  split at scan
  · obtain ⟨num, num_at, scan⟩ := bind_ok scan
    split at scan
    · rename_i smaller
      cases scan
      have lt : num < LONG_MAX := lt_of_lt_of_le smaller marks.le
      exact ⟨le_of_lt lt, iff_of_true rfl lt, fun _ => ⟨start, load_ok at_, load_ok num_at⟩⟩
    · cases scan
      exact marks
  · cases scan
    exact marks

theorem marks_of_scan {m : Marked} {min_idx : Nat}
    (scan : (List.range NTHR).foldlM (scanMarked TNUM nums idx) ⟨⟨LONG_MAX, min_idx⟩, false⟩ =
      .ok m) : Marks nums idx m :=
  foldlM_range_keeps (I := fun _ m => Marks nums idx m) (Marks.start min_idx)
    (fun _ _ _ marks step => marks.step step) scan

/-- The output of the first `k` rounds, of which none has assigned `min_idx` for a `LONG_MAX`. -/
structure Wrote (k : Nat) (notes : Notes) : Prop where
  out : notes.st.snums.take k = notes.rounds.map Round.num
  small : ∀ r ∈ notes.rounds, r.assigned = true → r.num < LONG_MAX

theorem Wrote.step {k : Nat} {notes next : Notes} (wrote : Wrote k notes)
    (round : noteOne NTHR TNUM nums notes k = .ok next) : Wrote (k + 1) next := by
  obtain ⟨m, start, num, scan, at_, num_at, room, rfl⟩ := noteOne_ok round
  have marks := marks_of_scan scan
  constructor
  case out =>
    dsimp only
    rw [List.take_add_one, List.take_set_of_le (Nat.le_refl k), List.getElem?_set_self room,
      wrote.out, List.map_append]
    rfl
  case small =>
    intro r mem assigned
    obtain earlier | own := List.mem_append.mp mem
    · exact wrote.small r earlier assigned
    · obtain rfl := List.mem_singleton.mp own
      obtain ⟨start', at', num'⟩ := marks.place assigned
      obtain rfl : start = start' := Option.some.inj (at_.symm.trans at')
      obtain rfl : num = m.min.min_num := Option.some.inj (num_at.symm.trans num')
      exact marks.assigned.mp assigned

/-- The selection was made in this round, from inside of its segment, and is a least head. -/
structure Round.Right (NTHR TNUM : Nat) (nums : List Int) (r : Round) : Prop where
  assigned : r.assigned = true
  inside : ∃ start, r.idx[r.min_idx]? = some start ∧ r.min_idx * TNUM ≤ start ∧
    start < (r.min_idx + 1) * TNUM ∧ nums[start]? = some r.num
  least : ∀ i num, i < NTHR → Head TNUM nums r.idx i num → r.num ≤ num

/-- Behind `k` rounds that were right. -/
structure Selected (NTHR TNUM : Nat) (nums : List Int) (k : Nat) (notes : Notes) : Prop where
  merged : Merged NTHR TNUM nums k notes.st
  count : notes.rounds.length = k
  cursors : ∀ (i start : Nat), notes.st.idx[i]? = some start → i * TNUM ≤ start
  right : ∀ r ∈ notes.rounds, r.Right NTHR TNUM nums

theorem Selected.start {snums : List Int} (whole : nums.length = NTHR * TNUM)
    (room : snums.length = NTHR * TNUM)
    (sorted : ∀ i, i < NTHR → (piece TNUM i nums).Pairwise (· ≤ ·)) (min_idx : Nat) :
    Selected NTHR TNUM nums 0 ⟨[], (List.range NTHR).map (· * TNUM), min_idx, snums⟩ := by
  refine ⟨.start whole room sorted min_idx, rfl, fun i start at_ => ?_, nofun⟩
  rw [List.getElem?_map] at at_
  obtain ⟨j, place, rfl⟩ := Option.map_eq_some_iff.mp at_
  obtain ⟨-, rfl⟩ := List.getElem?_eq_some_iff.mp place
  rw [List.getElem_range]

/-- The note of a round whose elements are all smaller than the start value of the scan. -/
theorem round_right {k start : Nat} {num : Int} {notes : Notes} {m : Marked}
    (selected : Selected NTHR TNUM nums k notes) (whole : nums.length = NTHR * TNUM)
    (small : ∀ num ∈ nums, num < LONG_MAX) (more : k < NTHR * TNUM)
    (scan : (List.range NTHR).foldlM (scanMarked TNUM nums notes.st.idx)
      ⟨⟨LONG_MAX, notes.st.min_idx⟩, false⟩ = .ok m)
    (at_ : notes.st.idx[m.min.min_idx]? = some start) (num_at : nums[start]? = some num) :
    (⟨m.assigned, notes.st.idx, m.min.min_idx, num⟩ : Round).Right NTHR TNUM nums := by
  obtain ⟨min, found, head, least⟩ := exists_least selected.merged whole small more
  have same : m.min = min := by
    have erased := @foldlM_scanMarked NTHR TNUM nums notes.st.idx notes.st.min_idx
    rw [scan, found] at erased
    exact Except.ok.inj erased
  subst same
  obtain ⟨start', at', inside, num'⟩ := head
  obtain rfl : start = start' := Option.some.inj (at_.symm.trans at')
  obtain rfl : num = m.min.min_num := Option.some.inj (num_at.symm.trans num')
  have lt := small _ (List.mem_of_getElem? num_at)
  exact ⟨(marks_of_scan scan).assigned.mpr lt,
    ⟨start, at_, selected.cursors _ _ at_, inside, num_at⟩, least⟩

theorem Selected.step {k : Nat} {notes : Notes} (selected : Selected NTHR TNUM nums k notes)
    (whole : nums.length = NTHR * TNUM) (small : ∀ num ∈ nums, num < LONG_MAX)
    (more : k < NTHR * TNUM) :
    ∃ next, noteOne NTHR TNUM nums notes k = .ok next ∧ Selected NTHR TNUM nums (k + 1) next := by
  obtain ⟨st, step, merged⟩ := selected.merged.step whole small more
  have erased := @noteOne_st NTHR TNUM nums notes k
  cases round : noteOne NTHR TNUM nums notes k with
  | error f =>
      rw [round, step] at erased
      cases erased
  | ok next =>
      rw [round, step] at erased
      obtain rfl : next.st = st := Except.ok.inj erased
      obtain ⟨m, start, num, scan, at_, num_at, -, rfl⟩ := noteOne_ok round
      refine ⟨_, rfl, merged, ?_, ?_, ?_⟩
      · rw [List.length_append, selected.count, List.length_singleton]
      · intro i cursor at'
        dsimp only at at'
        by_cases same : i = m.min.min_idx
        · have low := selected.cursors _ _ at_
          rw [same, List.getElem?_set_self (List.getElem?_eq_some_iff.mp at_).1] at at'
          cases at'
          rw [same]
          exact Nat.le_succ_of_le low
        · rw [List.getElem?_set_ne (Ne.symm same)] at at'
          exact selected.cursors i cursor at'
      · intro r mem
        obtain earlier | own := List.mem_append.mp mem
        · exact selected.right r earlier
        · rw [List.mem_singleton.mp own]
          exact round_right selected whole small more scan at_ num_at

/-- `merge` returns, each of its rounds was right, and the output is sorted. -/
def MergeRight (NTHR TNUM : Nat) (nums snums : List Int) (min_idx : Nat) : Prop :=
  ∃ notes, mergeNotes NTHR TNUM nums snums min_idx = .ok notes ∧
    merge NTHR TNUM nums snums min_idx = .ok notes.st.snums ∧
    notes.rounds.length = NTHR * TNUM ∧ (∀ r ∈ notes.rounds, r.Right NTHR TNUM nums) ∧
    Sorted nums notes.st.snums

theorem mergeRight_of_small {snums : List Int} (whole : nums.length = NTHR * TNUM)
    (room : snums.length = NTHR * TNUM) (small : ∀ num ∈ nums, num < LONG_MAX)
    (sorted : ∀ i, i < NTHR → (piece TNUM i nums).Pairwise (· ≤ ·)) (min_idx : Nat) :
    MergeRight NTHR TNUM nums snums min_idx := by
  obtain ⟨notes, run, selected⟩ := foldlM_range (n := NTHR * TNUM)
    (Selected.start whole room sorted min_idx)
    fun k notes more selected => selected.step whole small more
  have erased := @mergeNotes_snums NTHR TNUM nums snums min_idx
  rw [mergeNotes, run] at erased
  obtain ⟨out, merged, sorts⟩ := merge_sorts whole room small sorted min_idx
  rw [merged] at erased
  obtain rfl : notes.st.snums = out := Except.ok.inj erased
  exact ⟨notes, run, merged, selected.count, selected.right, sorts⟩

/-- A `LONG_MAX` reaches the output in a round that has not assigned `min_idx`. -/
theorem MergeRight.sentinel_notMem {snums : List Int} {min_idx : Nat}
    (whole : nums.length = NTHR * TNUM)
    (right : MergeRight NTHR TNUM nums snums min_idx) : LONG_MAX ∉ nums := by
  obtain ⟨notes, run, -, count, rounds, perm, -⟩ := right
  intro mem
  have wrote : Wrote (NTHR * TNUM) notes :=
    foldlM_range_keeps (I := Wrote) ⟨rfl, fun r mem => absurd mem List.not_mem_nil⟩
      (fun _ _ _ wrote step => wrote.step step) run
  have all : notes.st.snums.take (NTHR * TNUM) = notes.st.snums := by
    rw [← whole, ← perm.length_eq, List.take_length]
  have out := wrote.out
  rw [all] at out
  have written := perm.mem_iff.mpr mem
  rw [out] at written
  obtain ⟨r, noted, num⟩ := List.mem_map.mp written
  have lt := wrote.small r noted (rounds r noted).assigned
  omega

/-- `merge` of sorted segments is right exactly if no element is the start value of the scan. -/
theorem mergeRight_iff {snums : List Int} (whole : nums.length = NTHR * TNUM)
    (room : snums.length = NTHR * TNUM) (longs : ∀ num ∈ nums, num ≤ LONG_MAX)
    (sorted : ∀ i, i < NTHR → (piece TNUM i nums).Pairwise (· ≤ ·)) (min_idx : Nat) :
    MergeRight NTHR TNUM nums snums min_idx ↔ LONG_MAX ∉ nums := by
  constructor
  · intro right
    exact right.sentinel_notMem whole
  · intro absent
    have small (num : Int) (mem : num ∈ nums) : num < LONG_MAX := by
      apply lt_of_le_of_ne (longs num mem)
      rintro rfl
      exact absent mem
    exact mergeRight_of_small whole room small sorted min_idx

/-- Two segments that are taken in turn. -/
theorem mergeRight_iff_turns :
    MergeRight 2 2 [1, 3, 2, 4] [0, 0, 0, 0] 9 ↔ LONG_MAX ∉ [1, 3, 2, 4] :=
  mergeRight_iff rfl rfl (by decide) (by decide) 9

/-- Nothing but the start value in all of the array. The first round has no `min_idx`. -/
theorem merge_all_sentinels :
    (∀ i, i < 8 → (piece 100000 i (List.replicate 800000 LONG_MAX)).Pairwise (· ≤ ·)) ∧
      ¬ MergeRight 8 100000 (List.replicate 800000 LONG_MAX) (List.replicate 800000 0) 0 := by
  constructor
  · intro i inside
    rw [piece, List.drop_replicate, List.take_replicate, List.pairwise_replicate]
    exact .inr (le_refl _)
  · intro right
    apply right.sentinel_notMem (by rw [List.length_replicate])
    rw [List.mem_replicate]
    decide

/-- The second segment is used up, and its `min_idx` is left over. -/
example : merge 2 2 [1, LONG_MAX, 2, LONG_MAX] [0, 0, 0, 0] 0 = .error (.outOfBounds 4) := rfl

end UnixProgramming.BarrierSort
