import UnixProgramming.Library.DoublyLinked
import UnixProgramming.Library.Fallible

/-!
# `lock_test4.c`: the queue of jobs

The jobs of a queue are linked in both directions. Every function takes the lock of the queue
before its first access and releases it after its last one, so each call runs alone. A queue is
kept together with the memory in which its jobs lie. An access through the null pointer is a
fault, and so is one to an address without a job.
-/

namespace UnixProgramming.JobQueue

open Linked Fallible

abbrev Addr := Nat

/-- Thread identifiers are integers, which `pthread_equal` compares. -/
abbrev PthreadT := UInt64

structure Job where
  jNext : Option Addr
  jPrev : Option Addr
  jId : PthreadT
  deriving DecidableEq

inductive Fault
  | nullPointer
  | notAllocated (a : Addr)
  | endless
  deriving DecidableEq

structure Queue where
  heap : Addr → Option Job
  qHead : Option Addr
  qTail : Option Addr

namespace Queue

/-- The `j_next` fields. -/
def next (q : Queue) : Links Addr := fun a => (q.heap a).map Job.jNext

/-- The `j_prev` fields. -/
def prev (q : Queue) : Links Addr := fun a => (q.heap a).map Job.jPrev

def store (q : Queue) (a : Addr) (job : Job) : Queue :=
  ⟨Function.update q.heap a (some job), q.qHead, q.qTail⟩

def setHead (q : Queue) (p : Option Addr) : Queue := ⟨q.heap, p, q.qTail⟩

def setTail (q : Queue) (p : Option Addr) : Queue := ⟨q.heap, q.qHead, p⟩

/-- The job behind a pointer. -/
def read (q : Queue) : Option Addr → Except Fault Job
  | none => .error .nullPointer
  | some a =>
      match q.heap a with
      | some job => .ok job
      | none => .error (.notAllocated a)

/-- `p->j_next = v`. -/
def setNext (q : Queue) (p v : Option Addr) : Except Fault Queue :=
  match p with
  | none => .error .nullPointer
  | some a => do
      let job ← q.read (some a)
      return q.store a ⟨v, job.jPrev, job.jId⟩

/-- `p->j_prev = v`. -/
def setPrev (q : Queue) (p v : Option Addr) : Except Fault Queue :=
  match p with
  | none => .error .nullPointer
  | some a => do
      let job ← q.read (some a)
      return q.store a ⟨job.jNext, v, job.jId⟩

/-- The `j_id` fields. -/
def ids (q : Queue) (a : Addr) : Option PthreadT := (q.heap a).map Job.jId

/-- A new queue next to any memory. -/
def queueInit (heap : Addr → Option Job) : Queue := ⟨heap, none, none⟩

def jobInsert (q : Queue) (jp : Addr) : Except Fault Queue := do
  let q ← q.setPrev (some jp) none
  let q ← q.setNext (some jp) q.qHead
  let q ← if q.qHead.isSome then q.setPrev q.qHead (some jp) else pure (q.setTail (some jp))
  return q.setHead (some jp)

/-- The last assignment is made for an empty queue and for any other one. -/
def jobAppend (q : Queue) (jp : Addr) : Except Fault Queue := do
  let q ← q.setPrev (some jp) q.qTail
  let q ← q.setNext (some jp) none
  let q ← if q.qTail.isSome then q.setNext q.qTail (some jp) else pure (q.setTail (some jp))
  return q.setHead (some jp)

def jobRemove (q : Queue) (jp : Addr) : Except Fault Queue := do
  let job ← q.read (some jp)
  if q.qHead = some jp then
    let q := q.setHead job.jNext
    if q.qTail = some jp then return q.setTail none
    else q.setPrev job.jNext job.jPrev
  else if q.qTail = some jp then
    let q := q.setTail job.jPrev
    if q.qHead = some jp then return q.setHead none
    else q.setNext job.jPrev job.jNext
  else
    -- `jp->j_prev = jp->j_next->j_prev`
    let after ← q.read job.jNext
    let q ← q.setPrev (some jp) after.jPrev
    -- `jp->j_next = jp->j_prev->j_next`
    let job ← q.read (some jp)
    let before ← q.read job.jPrev
    q.setNext (some jp) before.jNext

/-- `rdlock` is the value of `pthread_rwlock_rdlock`. The loop is cut off after `fuel` jobs. -/
def jobFind (q : Queue) (rdlock : Int) (id : PthreadT) (fuel : Nat) :
    Except Fault (Option Addr × Queue) :=
  if rdlock ≠ 0 then .ok (none, q)
  else
    match walk q.next (fun a => (q.heap a).any (·.jId = id)) fuel q.qHead with
    | .found a => .ok (some a, q)
    | .null => .ok (none, q)
    | .dangling a => .error (.notAllocated a)
    | .outOfFuel => .error .endless

/-- The ends of the queue and the links of its jobs describe the list `xs`. -/
def WellFormed (q : Queue) (xs : List Addr) : Prop :=
  DoublyLinked q.next q.prev q.qHead q.qTail xs

/-! ## Stores -/

variable {q : Queue} {a jp : Addr} {job : Job}

theorem next_store (q : Queue) (a : Addr) (job : Job) :
    (q.store a job).next = Function.update q.next a (some job.jNext) := by
  funext b
  by_cases h : b = a
  · subst h
    simp [next, store]
  · simp [next, store, h]

theorem prev_store (q : Queue) (a : Addr) (job : Job) :
    (q.store a job).prev = Function.update q.prev a (some job.jPrev) := by
  funext b
  by_cases h : b = a
  · subst h
    simp [prev, store]
  · simp [prev, store, h]

@[simp] theorem qHead_store (q : Queue) (a : Addr) (job : Job) :
    (q.store a job).qHead = q.qHead := rfl

@[simp] theorem qTail_store (q : Queue) (a : Addr) (job : Job) :
    (q.store a job).qTail = q.qTail := rfl

@[simp] theorem store_store (q : Queue) (a : Addr) (job job' : Job) :
    (q.store a job).store a job' = q.store a job' := by
  simp [store]

theorem heap_store_self (q : Queue) (a : Addr) (job : Job) : (q.store a job).heap a = some job := by
  simp [store]

theorem heap_store_of_ne {b : Addr} (ne : b ≠ a) (q : Queue) (job : Job) :
    (q.store a job).heap b = q.heap b := by
  simp [store, ne]

theorem read_eq (h : q.heap a = some job) : q.read (some a) = .ok job := by
  rw [read, h]

theorem setNext_eq (h : q.heap a = some job) (v : Option Addr) :
    q.setNext (some a) v = .ok (q.store a ⟨v, job.jPrev, job.jId⟩) := by
  rw [setNext, read_eq h, ok_bind, pure_eq_ok]

theorem setPrev_eq (h : q.heap a = some job) (v : Option Addr) :
    q.setPrev (some a) v = .ok (q.store a ⟨job.jNext, v, job.jId⟩) := by
  rw [setPrev, read_eq h, ok_bind, pure_eq_ok]

theorem next_of_heap (h : q.heap a = some job) : q.next a = some job.jNext := by
  rw [next, h, Option.map_some]

theorem prev_of_heap (h : q.heap a = some job) : q.prev a = some job.jPrev := by
  rw [prev, h, Option.map_some]

/-- A store to `j_prev` keeps the successors. -/
theorem next_store_jPrev (h : q.heap a = some job) (v : Option Addr) :
    (q.store a ⟨job.jNext, v, job.jId⟩).next = q.next := by
  rw [next_store, ← next_of_heap h, Function.update_eq_self]

theorem prev_store_jNext (h : q.heap a = some job) (v : Option Addr) :
    (q.store a ⟨v, job.jPrev, job.jId⟩).prev = q.prev := by
  rw [prev_store, ← prev_of_heap h, Function.update_eq_self]

/-- A store that keeps `j_id` keeps all of them. -/
theorem ids_store (h : q.heap a = some job) (u v : Option Addr) :
    (q.store a ⟨u, v, job.jId⟩).ids = q.ids := by
  funext b
  by_cases same : b = a
  · subst same
    rw [ids, ids, heap_store_self, h]
    rfl
  · rw [ids, ids, heap_store_of_ne same]

namespace WellFormed

variable {xs : List Addr}

/-- The jobs of the queue are allocated. -/
theorem live (h : WellFormed q xs) (mem : a ∈ xs) : ∃ job, q.heap a = some job := by
  obtain ⟨front, back, rfl⟩ := List.append_of_mem mem
  obtain ⟨p, hp, -⟩ := h.forward.suffix
  obtain ⟨job, live, -⟩ := Option.map_eq_some_iff.mp hp
  exact ⟨job, live⟩

end WellFormed

/-! ## `job_insert` -/

theorem jobInsert_empty (live : q.heap jp = some job) (empty : q.qHead = none) :
    q.jobInsert jp =
      .ok (((q.store jp ⟨none, none, job.jId⟩).setTail (some jp)).setHead (some jp)) := by
  simp [jobInsert, setPrev_eq live, setNext_eq (heap_store_self q jp _), empty]

theorem jobInsert_cons {b : Addr} {old : Job} (live : q.heap jp = some job)
    (first : q.qHead = some b) (ne : b ≠ jp) (oldLive : q.heap b = some old) :
    q.jobInsert jp = .ok (((q.store jp ⟨some b, none, job.jId⟩).store b
      ⟨old.jNext, some jp, old.jId⟩).setHead (some jp)) := by
  have kept : (q.store jp ⟨some b, none, job.jId⟩).heap b = some old := by
    rw [heap_store_of_ne ne, oldLive]
  simp [jobInsert, setPrev_eq live, setNext_eq (heap_store_self q jp _), first, setPrev_eq kept]

/-- `job_insert` puts the job in front of the queue. -/
theorem WellFormed.jobInsert {xs : List Addr} (h : WellFormed q xs) (fresh : jp ∉ xs)
    (live : q.heap jp = some job) :
    ∃ q', q.jobInsert jp = .ok q' ∧ WellFormed q' (jp :: xs) ∧ q'.ids = q.ids := by
  have head := h.head_eq
  cases xs with
  | nil =>
      refine ⟨_, jobInsert_empty live head, ?_, ids_store live none none⟩
      show DoublyLinked (q.store jp _).next (q.store jp _).prev (some jp) (some jp) [jp]
      rw [next_store, prev_store]
      exact .singleton jp
  | cons b ys =>
      obtain ⟨old, oldLive⟩ := h.live List.mem_cons_self
      have ne : b ≠ jp := by
        rintro rfl
        exact fresh List.mem_cons_self
      have kept : (q.store jp ⟨some b, none, job.jId⟩).heap b = some old := by
        rw [heap_store_of_ne ne, oldLive]
      refine ⟨_, jobInsert_cons live head ne oldLive, ?_,
        (ids_store kept old.jNext (some jp)).trans (ids_store live (some b) none)⟩
      show DoublyLinked (Queue.store _ b _).next (Queue.store _ b _).prev (some jp) q.qTail
        (jp :: b :: ys)
      rw [next_store_jPrev kept, prev_store, next_store, prev_store]
      have pushed := h.pushFront fresh
      rw [head] at pushed
      exact pushed

end Queue

end UnixProgramming.JobQueue
