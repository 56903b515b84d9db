import UnixProgramming.Library.CMemory
import UnixProgramming.Library.Linked
import UnixProgramming.Library.Transition

/-!
# `cond_test1.c`: a work queue with a mutex and a condition variable

Workers run `process_msg` and producers call `enqueue_msg`, instruction by instruction
and in any order. A thread at `pthread_mutex_lock` takes no step while the mutex has an
owner. `pthread_cond_wait` gives the mutex up and joins the waiters in one step. A waiter
goes on once it has been woken and the mutex is free. The signal wakes at least one waiter
if there are any, and waiters also wake for no reason.
-/

namespace UnixProgramming.CondTest

open CMemory Linked Transition

abbrev Addr := Nat

abbrev Tid := Nat

/-- `struct msg`. The buffer behind `p_data` belongs to the message, until it is freed. -/
structure Msg where
  mNext : Option Addr
  pData : Option Block
  len : Nat

/-- The instruction of a thread that comes next, with its pointer `mp`. -/
inductive Pc
  | outside
  -- process_msg
  | lock
  | test
  | condWait
  | waiting
  | take
  | advance (mp : Option Addr)
  | unlock (mp : Option Addr)
  | print (mp : Option Addr)
  | freeData (mp : Option Addr)
  | freeMsg (mp : Option Addr)
  | sleep
  -- enqueue_msg
  | enqLock (mp : Addr)
  | enqLink (mp : Addr)
  | enqPush (mp : Addr)
  | enqUnlock
  | enqSignal
  deriving DecidableEq

/-- The memory, the mutex, the waiters that have not been woken, and every thread. A message
is identified by the number of the call that enqueues it, as its address may be used again. -/
structure State where
  heap : Addr → Option Msg
  workq : Option Addr
  qlock : Option Tid
  qready : List Tid
  pc : Tid → Pc
  calls : Nat
  number : Addr → Nat
  pushed : List Nat
  taken : List (Tid × Nat)

/-- An access to a null pointer or to memory that is not allocated. -/
inductive Fault
  | null
  | dangling (a : Addr)
  deriving DecidableEq

inductive Stop
  | disabled
  | fault (f : Fault)
  deriving DecidableEq

/-- A new worker, a call of `enqueue_msg` with a message just allocated, the next instruction
of a thread, a signal with the waiters that it wakes, or a waiter that wakes by itself. -/
inductive Action
  | createWorker (t : Tid)
  | callEnqueue (t : Tid) (mp : Addr) (msg : Msg)
  | run (t : Tid)
  | signal (t : Tid) (woken : List Tid)
  | wakeSpuriously (t : Tid)

namespace State

def init : State where
  heap := fun _ => none
  workq := none
  qlock := none
  qready := []
  pc := fun _ => .outside
  calls := 0
  number := fun _ => 0
  pushed := []
  taken := []

/-- The message that a pointer leads to. -/
def deref (s : State) : Option Addr → Except Stop (Addr × Msg)
  | none => .error (.fault .null)
  | some a =>
      match s.heap a with
      | some m => .ok (a, m)
      | none => .error (.fault (.dangling a))

def store (s : State) (a : Addr) (m : Option Msg) : State :=
  { s with heap := Function.update s.heap a m }

def goto (s : State) (t : Tid) (next : Pc) : State :=
  { s with pc := Function.update s.pc t next }

def acquire (s : State) (t : Tid) (next : Pc) : Except Stop State :=
  if s.qlock = none then .ok { s.goto t next with qlock := some t } else .error .disabled

def release (s : State) (t : Tid) (next : Pc) : State := { s.goto t next with qlock := none }

/-- One instruction of the thread `t`. -/
def run (s : State) (t : Tid) : Except Stop State :=
  match s.pc t with
  | .outside => .error .disabled
  | .lock => s.acquire t .test
  | .test => .ok (s.goto t (if s.workq = none then .condWait else .take))
  | .condWait => .ok { s.release t .waiting with qready := t :: s.qready }
  | .waiting => if t ∉ s.qready then s.acquire t .test else .error .disabled
  | .take => .ok (s.goto t (.advance s.workq))
  | .advance mp =>
      match s.deref s.workq with
      | .ok (a, m) =>
          .ok { s.goto t (.unlock mp) with
            workq := m.mNext, taken := (t, s.number a) :: s.taken }
      | .error stop => .error stop
  | .unlock mp => .ok (s.release t (.print mp))
  | .print mp =>
      match s.deref mp with
      | .ok (a, m) =>
          if m.pData = none then .error (.fault (.dangling a)) else .ok (s.goto t (.freeData mp))
      | .error stop => .error stop
  | .freeData mp =>
      match s.deref mp with
      | .ok (a, m) =>
          if m.pData = none then .error (.fault (.dangling a))
          else .ok ((s.store a (some { m with pData := none })).goto t (.freeMsg mp))
      | .error stop => .error stop
  | .freeMsg mp =>
      match s.deref mp with
      | .ok (a, _) => .ok ((s.store a none).goto t .sleep)
      | .error stop => .error stop
  | .sleep => .ok (s.goto t .lock)
  | .enqLock mp => s.acquire t (.enqLink mp)
  | .enqLink mp =>
      match s.deref (some mp) with
      | .ok (_, m) => .ok ((s.store mp (some { m with mNext := s.workq })).goto t (.enqPush mp))
      | .error stop => .error stop
  | .enqPush mp =>
      .ok { s.goto t .enqUnlock with workq := some mp, pushed := s.number mp :: s.pushed }
  | .enqUnlock => .ok (s.release t .enqSignal)
  -- see `signal`
  | .enqSignal => .error .disabled

/-- `malloc` hands out a free address. The message has its text and any `m_next`. -/
def callEnqueue (s : State) (t : Tid) (mp : Addr) (msg : Msg) : Except Stop State :=
  if s.pc t = .outside ∧ s.heap mp = none ∧ msg.pData ≠ none then
    .ok { (s.store mp (some msg)).goto t (.enqLock mp) with
      calls := s.calls + 1, number := Function.update s.number mp s.calls }
  else .error .disabled

/-- `pthread_cond_signal` wakes some of the waiters, and at least one if there are any. -/
def signal (s : State) (t : Tid) (woken : List Tid) : Except Stop State :=
  if s.pc t = .enqSignal ∧ (∀ u ∈ woken, u ∈ s.qready) ∧ (s.qready ≠ [] → woken ≠ []) then
    .ok { s.goto t .outside with qready := s.qready.filter fun u => u ∉ woken }
  else .error .disabled

def step (s : State) : Action → Except Stop State
  | .createWorker t =>
      if s.pc t = .outside then .ok (s.goto t .lock) else .error .disabled
  | .callEnqueue t mp msg => s.callEnqueue t mp msg
  | .run t => s.run t
  | .signal t woken => s.signal t woken
  | .wakeSpuriously t =>
      if t ∈ s.qready then .ok { s with qready := s.qready.filter fun u => u ≠ t }
      else .error .disabled

end State

def Step (s : State) (act : Action) (s' : State) : Prop := s.step act = .ok s'

/-- The instructions that change nothing but the position of the thread. -/
inductive Plain (s : State) : Pc → Pc → Prop
  | empty (h : s.workq = none) : Plain s .test .condWait
  | full (h : s.workq ≠ none) : Plain s .test .take
  | take : Plain s .take (.advance s.workq)
  | print (mp : Option Addr) : Plain s (.print mp) (.freeData mp)
  | sleep : Plain s .sleep .lock

/-- The instructions that lock the mutex. -/
inductive Locks (s : State) (t : Tid) : Pc → Pc → Prop
  | lock : Locks s t .lock .test
  | woken (h : t ∉ s.qready) : Locks s t .waiting .test
  | enqLock (mp : Addr) : Locks s t (.enqLock mp) (.enqLink mp)

/-- The instructions that only unlock it. -/
inductive Unlocks : Pc → Pc → Prop
  | unlock (mp : Option Addr) : Unlocks (.unlock mp) (.print mp)
  | enqUnlock : Unlocks .enqUnlock .enqSignal

/-- What the next instruction of a thread does, if it is not blocked and not a fault. -/
inductive Effect (s : State) (t : Tid) : State → Prop
  | plain {next : Pc} (move : Plain s (s.pc t) next) : Effect s t (s.goto t next)
  | locks {next : Pc} (free : s.qlock = none) (move : Locks s t (s.pc t) next) :
      Effect s t { s.goto t next with qlock := some t }
  | unlocks {next : Pc} (move : Unlocks (s.pc t) next) : Effect s t (s.release t next)
  | condWait (at_ : s.pc t = .condWait) :
      Effect s t { s.release t .waiting with qready := t :: s.qready }
  | advance {mp : Option Addr} {a : Addr} {m : Msg} (at_ : s.pc t = .advance mp)
      (front : s.workq = some a) (cell : s.heap a = some m) :
      Effect s t { s.goto t (.unlock mp) with
        workq := m.mNext, taken := (t, s.number a) :: s.taken }
  | freeData {a : Addr} {m : Msg} (at_ : s.pc t = .freeData (some a))
      (cell : s.heap a = some m) :
      Effect s t ((s.store a (some { m with pData := none })).goto t (.freeMsg (some a)))
  | freeMsg {a : Addr} {m : Msg} (at_ : s.pc t = .freeMsg (some a)) (cell : s.heap a = some m) :
      Effect s t ((s.store a none).goto t .sleep)
  | link {a : Addr} {m : Msg} (at_ : s.pc t = .enqLink a) (cell : s.heap a = some m) :
      Effect s t ((s.store a (some { m with mNext := s.workq })).goto t (.enqPush a))
  | push {a : Addr} (at_ : s.pc t = .enqPush a) :
      Effect s t { s.goto t .enqUnlock with
        workq := some a, pushed := s.number a :: s.pushed }

theorem deref_ok {s : State} {p : Option Addr} {r : Addr × Msg} (h : s.deref p = .ok r) :
    p = some r.1 ∧ s.heap r.1 = some r.2 := by
  cases p with
  | none => cases h
  | some a =>
      cases cell : s.heap a with
      | none => simp [State.deref, cell] at h
      | some m =>
          obtain rfl : (a, m) = r := by simpa [State.deref, cell] using h
          exact ⟨rfl, cell⟩

theorem acquire_ok {s s' : State} {t : Tid} {next : Pc} (h : s.acquire t next = .ok s') :
    s.qlock = none ∧ s' = { s.goto t next with qlock := some t } := by
  rw [State.acquire] at h
  split at h
  · cases h
    exact ⟨‹_›, rfl⟩
  · cases h

theorem effect_of_run {s s' : State} {t : Tid} (h : s.run t = .ok s') : Effect s t s' := by
  unfold State.run at h
  cases at_ : s.pc t with
  | outside | enqSignal => simp [at_] at h
  | lock =>
      rw [at_] at h
      obtain ⟨free, rfl⟩ := acquire_ok h
      exact .locks free (at_ ▸ .lock)
  | test =>
      rw [at_] at h
      cases h
      by_cases empty : s.workq = none
      · rw [if_pos empty]
        exact .plain (at_ ▸ .empty empty)
      · rw [if_neg empty]
        exact .plain (at_ ▸ .full empty)
  | condWait =>
      rw [at_] at h
      cases h
      exact .condWait at_
  | waiting =>
      rw [at_] at h
      dsimp only at h
      split at h
      · obtain ⟨free, rfl⟩ := acquire_ok h
        exact .locks free (at_ ▸ .woken ‹_›)
      · cases h
  | take =>
      rw [at_] at h
      cases h
      exact .plain (at_ ▸ .take)
  | advance mp =>
      rw [at_] at h
      dsimp only at h
      split at h
      · rename_i r call
        cases h
        obtain ⟨front, cell⟩ := deref_ok call
        exact .advance at_ front cell
      · cases h
  | unlock mp =>
      rw [at_] at h
      cases h
      exact .unlocks (at_ ▸ .unlock mp)
  | print mp =>
      rw [at_] at h
      dsimp only at h
      split at h
      · split at h
        · cases h
        · cases h
          exact .plain (at_ ▸ .print mp)
      · cases h
  | freeData mp =>
      rw [at_] at h
      dsimp only at h
      split at h
      · rename_i r call
        obtain ⟨rfl, cell⟩ := deref_ok call
        split at h
        · cases h
        · cases h
          exact .freeData at_ cell
      · cases h
  | freeMsg mp =>
      rw [at_] at h
      dsimp only at h
      split at h
      · rename_i r call
        obtain ⟨rfl, cell⟩ := deref_ok call
        cases h
        exact .freeMsg at_ cell
      · cases h
  | sleep =>
      rw [at_] at h
      cases h
      exact .plain (at_ ▸ .sleep)
  | enqLock mp =>
      rw [at_] at h
      obtain ⟨free, rfl⟩ := acquire_ok h
      exact .locks free (at_ ▸ .enqLock mp)
  | enqLink mp =>
      rw [at_] at h
      dsimp only at h
      split at h
      · rename_i r call
        obtain ⟨same, cell⟩ := deref_ok call
        cases same
        cases h
        exact .link at_ cell
      · cases h
  | enqPush mp =>
      rw [at_] at h
      cases h
      exact .push at_
  | enqUnlock =>
      rw [at_] at h
      cases h
      exact .unlocks (at_ ▸ .enqUnlock)

end UnixProgramming.CondTest
