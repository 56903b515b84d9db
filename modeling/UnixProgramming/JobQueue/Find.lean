import Mathlib.Data.List.Find
import UnixProgramming.JobQueue.Queue
import UnixProgramming.Library.Transition

/-!
# `job_find` behind any sequence of insertions

Insertion keeps the queue a list that ends, so the search of `job_find` ends as well. Of the jobs
with one identifier it returns the one that was inserted last.
-/

namespace UnixProgramming.JobQueue

open Linked Transition

namespace Queue

variable {q : Queue} {jp : Addr}

/-- The search returns the first job of the queue with the identifier, and leaves the queue as
it is. -/
theorem WellFormed.jobFind {xs : List Addr} (h : WellFormed q xs) (id : PthreadT) {fuel : Nat}
    (enough : xs.length ≤ fuel) :
    q.jobFind 0 id fuel = .ok (xs.find? fun a => (q.heap a).any (·.jId = id), q) := by
  rw [Queue.jobFind, if_neg (by simp), h.forward.walk_eq enough]
  cases xs.find? fun a => (q.heap a).any (·.jId = id) <;> rfl

theorem jobFind_locked (q : Queue) {rdlock : Int} (fails : rdlock ≠ 0) (id : PthreadT)
    (fuel : Nat) : q.jobFind rdlock id fuel = .ok (none, q) := if_pos fails

/-- What is stored outside of the queue does not matter to it. -/
theorem WellFormed.store {xs : List Addr} (h : WellFormed q xs) (outside : jp ∉ xs) (job : Job) :
    WellFormed (q.store jp job) xs := by
  have outside' : jp ∉ xs.reverse := by simpa using outside
  show DoublyLinked (q.store jp job).next (q.store jp job).prev q.qHead q.qTail xs
  rw [next_store, prev_store]
  exact ⟨h.forward.update_of_notMem outside _, h.backward.update_of_notMem outside' _⟩

end Queue

/-- A call of `job_insert`: the job, and what its owner has stored in it before. -/
structure Insertion where
  jp : Addr
  job : Job

/-- The owner of a job that is not in the queue fills it in and inserts it. -/
def Step (q : Queue) (act : Insertion) (q' : Queue) : Prop :=
  (∀ xs, Chain q.next q.qHead xs → act.jp ∉ xs) ∧
    (q.store act.jp act.job).jobInsert act.jp = .ok q'

/-- The queue holds the jobs that were inserted, the last one first, with their identifiers. -/
structure Holds (q : Queue) (inserted : List Insertion) : Prop where
  wellFormed : q.WellFormed (inserted.map Insertion.jp)
  ids : ∀ act ∈ inserted, q.ids act.jp = some act.job.jId

namespace Holds

variable {q q' : Queue} {inserted : List Insertion} {act : Insertion}

theorem init (heap : Addr → Option Job) : Holds (.queueInit heap) [] where
  wellFormed := .nil
  ids := by simp

theorem step (h : Holds q inserted) (hstep : Step q act q') : Holds q' (act :: inserted) := by
  obtain ⟨guard, run⟩ := hstep
  have outside := guard _ h.wellFormed.forward
  obtain ⟨q₁, run', wellFormed, ids⟩ := (h.wellFormed.store outside act.job).jobInsert outside
    (Queue.heap_store_self q act.jp act.job)
  rw [run'] at run
  cases run
  refine ⟨wellFormed, fun other mem => ?_⟩
  rw [ids]
  obtain rfl | earlier := List.mem_cons.mp mem
  · rw [Queue.ids, Queue.heap_store_self]
    rfl
  · have ne : other.jp ≠ act.jp := by
      intro same
      exact outside (same ▸ List.mem_map_of_mem earlier)
    rw [Queue.ids, Queue.heap_store_of_ne ne]
    exact h.ids other earlier

/-- A run of insertions puts them in front, in reverse order. -/
theorem steps {acts : List Insertion} (run : Steps Step q acts q') (h : Holds q inserted) :
    Holds q' (acts.reverse ++ inserted) := by
  induction run generalizing inserted with
  | nil q => exact h
  | cons first _ ih =>
      rw [List.reverse_cons, List.append_assoc]
      exact ih (h.step first)

/-- The first job with the identifier is the one inserted last. -/
theorem find_eq (h : Holds q inserted) (id : PthreadT) :
    (inserted.map Insertion.jp).find? (fun a => (q.heap a).any (·.jId = id)) =
      (inserted.find? (·.job.jId = id)).map Insertion.jp := by
  rw [List.find?_map, List.find?_congr]
  intro act mem
  obtain ⟨job, live, same⟩ := Option.map_eq_some_iff.mp (h.ids act mem)
  simp [live, same]

end Holds

/-- `job_insert` puts a job in front of every well-formed queue, and `job_find` returns the job
with the given identifier that was inserted last. -/
theorem jobInsert_jobFind :
    (∀ (q : Queue) (xs : List Addr) (jp : Addr), q.WellFormed xs → jp ∉ xs → q.heap jp ≠ none →
      ∃ q', q.jobInsert jp = .ok q' ∧ q'.WellFormed (jp :: xs)) ∧
    ∀ (heap : Addr → Option Job) (acts : List Insertion) (q : Queue),
      Steps Step (.queueInit heap) acts q →
        q.WellFormed (acts.reverse.map Insertion.jp) ∧
        ∀ (id : PthreadT) (fuel : Nat), acts.length ≤ fuel →
          q.jobFind 0 id fuel = .ok ((acts.reverse.map Insertion.jp).find?
            fun a => (q.heap a).any (·.jId = id), q) ∧
          q.jobFind 0 id fuel =
            .ok ((acts.reverse.find? (·.job.jId = id)).map Insertion.jp, q) := by
  constructor
  · intro q xs jp h fresh live
    obtain ⟨job, live⟩ := Option.ne_none_iff_exists'.mp live
    obtain ⟨q', run, h', -⟩ := h.jobInsert fresh live
    exact ⟨q', run, h'⟩
  · intro heap acts q run
    have holds : Holds q acts.reverse := by
      simpa using Holds.steps run (.init heap)
    refine ⟨holds.wellFormed, fun id fuel enough => ?_⟩
    have found := holds.wellFormed.jobFind id (by simpa using enough)
    exact ⟨found, by rw [found, holds.find_eq]⟩

/-- Two jobs of one thread: the second one is found. -/
theorem jobInsert_jobFind_two :
    (∃ q', (Queue.queueInit fun a => [⟨none, none, 7⟩][a]?).jobInsert 0 = .ok q' ∧
      q'.WellFormed [0]) ∧
    ∃ q, Steps Step (.queueInit fun _ => none) [⟨0, none, none, 7⟩, ⟨1, none, none, 7⟩] q ∧
      q.jobFind 0 7 2 = .ok (some 1, q) := by
  have run : ∃ q, Steps Step (.queueInit fun _ => none)
      [⟨0, none, none, 7⟩, ⟨1, none, none, 7⟩] q := by
    refine ⟨_, .cons ⟨?_, rfl⟩ (.single ⟨?_, rfl⟩)⟩
    · intro xs h
      obtain rfl : xs = [] := h.unique rfl
      simp
    · intro xs h
      obtain rfl : xs = [0] := h.unique ⟨rfl, none, rfl, rfl⟩
      simp
  obtain ⟨q, steps⟩ := run
  have found := (jobInsert_jobFind.2 _ _ q steps).2 7 2 (by simp)
  refine ⟨jobInsert_jobFind.1 _ [] 0 .nil (by simp) (by simp [Queue.queueInit]), q, steps, ?_⟩
  exact found.2

end UnixProgramming.JobQueue
