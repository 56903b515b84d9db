import UnixProgramming.JobQueue.Queue

/-!
# `job_append` and `job_remove`

Each of the two functions does its work in some of its cases only. `job_append` stores the new
job to `q_tail` where it means `q_head`, and the other way round. `job_remove` takes the first
and the last job off the queue, and leaves a job between two others where it is.
-/

namespace UnixProgramming.JobQueue

open Linked Fallible

namespace Queue

variable {q : Queue} {jp : Addr} {job : Job}

/-! ## `job_append` -/

theorem jobAppend_empty (live : q.heap jp = some job) (empty : q.qTail = none) :
    q.jobAppend jp =
      .ok (((q.store jp ⟨none, none, job.jId⟩).setTail (some jp)).setHead (some jp)) := by
  simp [jobAppend, setPrev_eq live, setNext_eq (heap_store_self q jp _), empty]

theorem jobAppend_concat {b : Addr} {old : Job} (live : q.heap jp = some job)
    (last : q.qTail = some b) (ne : b ≠ jp) (oldLive : q.heap b = some old) :
    q.jobAppend jp = .ok (((q.store jp ⟨none, some b, job.jId⟩).store b
      ⟨some jp, old.jPrev, old.jId⟩).setHead (some jp)) := by
  have kept : (q.store jp ⟨none, some b, job.jId⟩).heap b = some old := by
    rw [heap_store_of_ne ne, oldLive]
  simp [jobAppend, setPrev_eq live, setNext_eq (heap_store_self q jp _), last, setNext_eq kept]

/-- Behind a queue that is not empty the links are right and the ends are not: had the job
become the tail and not the head, it would be the last one of the queue. -/
theorem WellFormed.jobAppend_concat {ys : List Addr} {b : Addr} (h : WellFormed q (ys ++ [b]))
    (fresh : jp ∉ ys ++ [b]) (live : q.heap jp = some job) :
    ∃ q', q.jobAppend jp = .ok q' ∧ q'.qHead = some jp ∧
      WellFormed ((q'.setHead q.qHead).setTail (some jp)) (ys ++ [b, jp]) := by
  have last : q.qTail = some b := by rw [h.tail_eq, List.getLast?_concat]
  have mem : b ∈ ys ++ [b] := by simp
  obtain ⟨old, oldLive⟩ := h.live mem
  have ne : b ≠ jp := by
    rintro rfl
    exact fresh mem
  have kept : (q.store jp ⟨none, some b, job.jId⟩).heap b = some old := by
    rw [heap_store_of_ne ne, oldLive]
  refine ⟨_, Queue.jobAppend_concat live last ne oldLive, rfl, ?_⟩
  show DoublyLinked (Queue.store _ b _).next (Queue.store _ b _).prev q.qHead (some jp)
    (ys ++ [b, jp])
  rw [prev_store_jNext kept, next_store, next_store, prev_store]
  have pushed := h.pushBack fresh
  rw [last] at pushed
  exact pushed

/-- `job_append` puts the job behind the queue exactly where the queue is empty. -/
theorem jobAppend_wellFormed_iff {xs : List Addr} (h : WellFormed q xs) (fresh : jp ∉ xs)
    (live : q.heap jp = some job) :
    ∃ q', q.jobAppend jp = .ok q' ∧ (WellFormed q' (xs ++ [jp]) ↔ xs = []) := by
  obtain rfl | ⟨ys, b, rfl⟩ := List.eq_nil_or_concat xs
  · refine ⟨_, jobAppend_empty live h.tail_eq, fun _ => rfl, fun _ => ?_⟩
    show DoublyLinked (q.store jp _).next (q.store jp _).prev (some jp) (some jp) [jp]
    rw [next_store, prev_store]
    exact .singleton jp
  · rw [List.concat_eq_append] at h fresh ⊢
    obtain ⟨q', run, head, -⟩ := h.jobAppend_concat fresh live
    refine ⟨q', run, fun wrong => ?_, fun empty => ?_⟩
    · have first := wrong.head_eq
      rw [head, List.head?_append_of_ne_nil _ (by simp)] at first
      exact absurd (List.mem_of_head? first.symm) fresh
    · simp at empty

/-- The first job of a queue. -/
theorem jobAppend_wellFormed_first :
    ∃ q', (queueInit fun a => [⟨none, none, 7⟩][a]?).jobAppend 0 = .ok q' ∧
      WellFormed q' [0] := by
  have start : WellFormed (queueInit fun a => [⟨none, none, 7⟩][a]?) [] := .nil
  obtain ⟨q', run, right⟩ := jobAppend_wellFormed_iff start (by simp : (0 : Addr) ∉ []) rfl
  exact ⟨q', run, right.mpr rfl⟩

/-- Behind a queue with one job, the new job becomes the head and the tail stays. -/
theorem jobAppend_loses_head :
    WellFormed ⟨fun a => [⟨none, none, 7⟩, ⟨none, none, 8⟩][a]?, some 0, some 0⟩ [0] ∧
      ∃ q', jobAppend ⟨fun a => [⟨none, none, 7⟩, ⟨none, none, 8⟩][a]?, some 0, some 0⟩ 1 = .ok q' ∧
        Chain q'.next q'.qHead [1] ∧ Chain q'.prev q'.qTail [0] ∧ ¬ WellFormed q' [0, 1] := by
  refine ⟨⟨⟨rfl, none, rfl, rfl⟩, ⟨rfl, none, rfl, rfl⟩⟩, _, rfl, ⟨rfl, none, rfl, rfl⟩,
    ⟨rfl, none, rfl, rfl⟩, ?_⟩
  intro h
  have head : some 1 = some 0 := h.head_eq
  exact absurd head (by decide)

/-! ## `job_remove` -/

theorem jobRemove_sole (live : q.heap jp = some job) (first : q.qHead = some jp)
    (last : q.qTail = some jp) :
    q.jobRemove jp = .ok ((q.setHead job.jNext).setTail none) := by
  have last' : (q.setHead job.jNext).qTail = some jp := last
  rw [jobRemove, read_eq live, ok_bind, if_pos first, if_pos last']
  rfl

theorem jobRemove_first {b : Addr} {old : Job} (live : q.heap jp = some job)
    (first : q.qHead = some jp) (more : q.qTail ≠ some jp) (after : job.jNext = some b)
    (oldLive : q.heap b = some old) :
    q.jobRemove jp = .ok ((q.setHead (some b)).store b ⟨old.jNext, job.jPrev, old.jId⟩) := by
  have more' : (q.setHead job.jNext).qTail ≠ some jp := more
  have oldLive' : (q.setHead (some b)).heap b = some old := oldLive
  rw [jobRemove, read_eq live, ok_bind, if_pos first, if_neg more', after, setPrev_eq oldLive']

theorem jobRemove_last {b : Addr} {old : Job} (live : q.heap jp = some job)
    (more : q.qHead ≠ some jp) (last : q.qTail = some jp) (before : job.jPrev = some b)
    (oldLive : q.heap b = some old) :
    q.jobRemove jp = .ok ((q.setTail (some b)).store b ⟨job.jNext, old.jPrev, old.jId⟩) := by
  have more' : (q.setTail job.jPrev).qHead ≠ some jp := more
  have oldLive' : (q.setTail (some b)).heap b = some old := oldLive
  rw [jobRemove, read_eq live, ok_bind, if_neg more, if_pos last, if_neg more', before,
    setNext_eq oldLive']

/-- Between two other jobs, the first assignment stores the job's own address to its `j_prev`,
and the second one reads its `j_next` back through it. -/
theorem jobRemove_interior {b : Addr} {old : Job} (live : q.heap jp = some job)
    (notFirst : q.qHead ≠ some jp) (notLast : q.qTail ≠ some jp) (after : job.jNext = some b)
    (oldLive : q.heap b = some old) (back : old.jPrev = some jp) :
    q.jobRemove jp = .ok (q.store jp ⟨job.jNext, some jp, job.jId⟩) := by
  have live' := heap_store_self q jp ⟨job.jNext, some jp, job.jId⟩
  have next : q.read job.jNext = .ok old := by rw [after, read_eq oldLive]
  rw [jobRemove, read_eq live, ok_bind, if_neg notFirst, if_neg notLast, next, ok_bind, back,
    setPrev_eq live, ok_bind, read_eq live', ok_bind, read_eq live', ok_bind, setNext_eq live',
    store_store]

namespace WellFormed

variable {xs ys zs : List Addr} {b c : Addr}

/-- The job in front is taken off. -/
theorem jobRemove_first (h : WellFormed q (jp :: xs)) :
    ∃ q', q.jobRemove jp = .ok q' ∧ WellFormed q' xs := by
  obtain ⟨job, live⟩ := h.live List.mem_cons_self
  have first : q.qHead = some jp := h.head_eq
  have last := h.tail_eq
  obtain ⟨-, p, hp, rest⟩ := h.forward
  rw [next_of_heap live] at hp
  cases hp
  cases xs with
  | nil =>
      refine ⟨_, jobRemove_sole live first last, ?_⟩
      show DoublyLinked q.next q.prev job.jNext none []
      rw [chain_nil.mp rest]
      exact .nil
  | cons b ys =>
      obtain ⟨old, oldLive⟩ := h.live (by simp : b ∈ jp :: b :: ys)
      have more : q.qTail ≠ some jp :=
        DoublyLinked.tail_ne (show WellFormed q ([] ++ jp :: b :: ys) from h)
      have front : job.jPrev = none := by
        have none := h.prev_head
        rw [prev_of_heap live] at none
        exact Option.some.inj none
      refine ⟨_, Queue.jobRemove_first live first more rest.1 oldLive, ?_⟩
      show DoublyLinked (Queue.store _ b _).next (Queue.store _ b _).prev (some b) q.qTail (b :: ys)
      have oldLive' : (q.setHead (some b)).heap b = some old := oldLive
      rw [next_store_jPrev oldLive', prev_store, front]
      exact h.popFront

/-- The job at the back is taken off. -/
theorem jobRemove_last (h : WellFormed q (ys ++ [b, jp])) :
    ∃ q', q.jobRemove jp = .ok q' ∧ WellFormed q' (ys ++ [b]) := by
  obtain ⟨job, live⟩ := h.live (by simp : jp ∈ ys ++ [b, jp])
  obtain ⟨old, oldLive⟩ := h.live (by simp : b ∈ ys ++ [b, jp])
  have last : q.qTail = some jp := by
    rw [h.tail_eq]
    simp
  have before : job.jPrev = some b := by
    have prev := h.prev_eq
    rw [prev_of_heap live] at prev
    exact Option.some.inj prev
  have back : job.jNext = none := by
    have next := (show WellFormed q ((ys ++ [b]) ++ [jp]) by simpa using h).next_tail
    rw [next_of_heap live] at next
    exact Option.some.inj next
  have oldLive' : (q.setTail (some b)).heap b = some old := oldLive
  refine ⟨_, Queue.jobRemove_last live h.head_ne last before oldLive, ?_⟩
  show DoublyLinked (Queue.store _ b _).next (Queue.store _ b _).prev q.qHead (some b) (ys ++ [b])
  rw [prev_store_jNext oldLive', next_store, back]
  exact h.popBack

/-- A job between two others stays where it is: its successor is still reached from it, and
it from its predecessor. -/
theorem jobRemove_interior (h : WellFormed q (xs ++ b :: jp :: c :: ys)) :
    ∃ q', q.jobRemove jp = .ok q' ∧ Chain q'.next q'.qHead (xs ++ b :: jp :: c :: ys) := by
  obtain ⟨job, live⟩ := h.live (by simp : jp ∈ xs ++ b :: jp :: c :: ys)
  obtain ⟨old, oldLive⟩ := h.live (by simp : c ∈ xs ++ b :: jp :: c :: ys)
  have h' : WellFormed q ((xs ++ [b]) ++ jp :: c :: ys) := by simpa using h
  have after : job.jNext = some c := by
    have next := h'.next_eq
    rw [next_of_heap live] at next
    exact Option.some.inj next
  have back : old.jPrev = some jp := by
    have prev := h'.prev_eq
    rw [prev_of_heap oldLive] at prev
    exact Option.some.inj prev
  refine ⟨_, Queue.jobRemove_interior live h.head_ne h'.tail_ne after oldLive back, ?_⟩
  show Chain (q.store jp _).next q.qHead _
  rw [next_store_jPrev live]
  exact h.forward

end WellFormed

/-- The places of a job in a queue. -/
theorem eq_of_mem {xs : List Addr} (mem : jp ∈ xs) :
    (∃ ys, xs = jp :: ys) ∨ (∃ ys b, xs = ys ++ [b, jp]) ∨
      ∃ ys b c zs, xs = ys ++ b :: jp :: c :: zs := by
  obtain ⟨front, back, rfl⟩ := List.append_of_mem mem
  obtain rfl | ⟨ys, b, rfl⟩ := List.eq_nil_or_concat front
  · exact .inl ⟨back, rfl⟩
  · cases back with
    | nil => exact .inr (.inl ⟨ys, b, by simp⟩)
    | cons c zs => exact .inr (.inr ⟨ys, b, c, zs, by simp⟩)

/-- `job_remove` takes its job off the queue exactly where the job is the first or the last one.
It does not meet the null pointer anywhere. -/
theorem jobRemove_wellFormed_iff {xs : List Addr} (h : WellFormed q xs) (mem : jp ∈ xs) :
    ∃ q', q.jobRemove jp = .ok q' ∧
      (WellFormed q' (xs.erase jp) ↔ xs.head? = some jp ∨ xs.getLast? = some jp) := by
  have distinct := h.nodup
  obtain ⟨ys, rfl⟩ | ⟨ys, b, rfl⟩ | ⟨ys, b, c, zs, rfl⟩ := eq_of_mem mem
  · obtain ⟨q', run, h'⟩ := h.jobRemove_first
    refine ⟨q', run, fun _ => .inl rfl, fun _ => ?_⟩
    rwa [List.erase_cons_head]
  · obtain ⟨q', run, h'⟩ := h.jobRemove_last
    refine ⟨q', run, fun _ => .inr (by simp), fun _ => ?_⟩
    have split : ys ++ [b, jp] = (ys ++ [b]) ++ [jp] := by simp
    rw [split] at distinct ⊢
    have front : jp ∉ ys ++ [b] := fun again =>
      List.disjoint_of_nodup_append distinct again List.mem_cons_self
    rwa [List.erase_append_right _ front, List.erase_cons_head, List.append_nil]
  · obtain ⟨q', run, chain⟩ := h.jobRemove_interior
    refine ⟨q', run, fun h' => ?_, fun ends => ?_⟩
    · have same := congrArg List.length (h'.forward.unique chain)
      rw [List.length_erase_of_mem mem] at same
      have := List.length_pos_of_mem mem
      omega
    · obtain first | last := ends
      · rw [← h.head_eq] at first
        exact absurd first h.head_ne
      · rw [← h.tail_eq] at last
        have h' : WellFormed q ((ys ++ [b]) ++ jp :: c :: zs) := by simpa using h
        exact absurd last h'.tail_ne

/-- The last one of two jobs. -/
theorem jobRemove_wellFormed_last :
    ∃ q', jobRemove ⟨fun a => [⟨some 1, none, 7⟩, ⟨none, some 0, 8⟩][a]?, some 0, some 1⟩ 1 =
        .ok q' ∧ WellFormed q' [0] := by
  have start : WellFormed
      ⟨fun a => [⟨some 1, none, 7⟩, ⟨none, some 0, 8⟩][a]?, some 0, some 1⟩ [0, 1] :=
    ⟨⟨rfl, some 1, rfl, rfl, none, rfl, rfl⟩, ⟨rfl, some 0, rfl, rfl, none, rfl, rfl⟩⟩
  obtain ⟨q', run, right⟩ := jobRemove_wellFormed_iff start (by decide : 1 ∈ [0, 1])
  exact ⟨q', run, right.mpr (.inr rfl)⟩

/-- The second one of three jobs is still in the queue, and leads back to itself. -/
theorem jobRemove_keeps_interior :
    WellFormed ⟨fun a => [⟨some 1, none, 7⟩, ⟨some 2, some 0, 8⟩, ⟨none, some 1, 9⟩][a]?, some 0,
        some 2⟩ [0, 1, 2] ∧
      ∃ q', jobRemove ⟨fun a => [⟨some 1, none, 7⟩, ⟨some 2, some 0, 8⟩, ⟨none, some 1, 9⟩][a]?,
          some 0, some 2⟩ 1 = .ok q' ∧ Chain q'.next q'.qHead [0, 1, 2] ∧
        q'.prev 1 = some (some 1) ∧ ¬ WellFormed q' [0, 2] := by
  refine ⟨⟨⟨rfl, some 1, rfl, rfl, some 2, rfl, rfl, none, rfl, rfl⟩,
    ⟨rfl, some 1, rfl, rfl, some 0, rfl, rfl, none, rfl, rfl⟩⟩, _, rfl,
    ⟨rfl, some 1, rfl, rfl, some 2, rfl, rfl, none, rfl, rfl⟩, rfl, ?_⟩
  intro h
  have next : some (some 1) = some (some 2) :=
    DoublyLinked.next_eq (show WellFormed _ ([] ++ 0 :: 2 :: []) from h)
  exact absurd next (by decide)

end Queue

end UnixProgramming.JobQueue
