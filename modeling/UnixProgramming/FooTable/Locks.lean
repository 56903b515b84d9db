import UnixProgramming.FooTable.Sections
import UnixProgramming.Library.Fallible
import UnixProgramming.Library.LockOrder

/-!
# `lock_test2.c` with every lock and unlock as its own step

Threads run the four operations instruction by instruction. Each
`pthread_mutex_lock` and `pthread_mutex_unlock` is a step of its own, and so is
each stretch of memory accesses between two of them. A thread at a lock
instruction takes no step while another thread owns the mutex.

The order of the locks is `hashlock` before any `f_lock`. It holds because
`foo_release` gives up `f_lock` before it asks for `hashlock`.
-/

namespace UnixProgramming.FooTable

open Fallible LockOrder Transition

inductive Mutex
  | hashlock
  | fLock (a : Addr)
  deriving DecidableEq

/-- Whether `foo_hold` was called by the thread itself or from inside `foo_find`. -/
inductive Caller
  | thread
  | fooFind
  deriving DecidableEq

/-- The instruction that a thread executes next. -/
inductive Pc
  | idle
  | allocLockHash (a : Addr) (id : Int)
  | allocLink (a : Addr) (id : Int)
  | allocLockF (a : Addr)
  | allocUnlockF (a : Addr)
  | allocUnlockHash
  | holdLockF (c : Caller) (a : Addr)
  | holdInc (c : Caller) (a : Addr)
  | holdUnlockF (c : Caller) (a : Addr)
  | findLockHash (id : Int)
  | findScan (id : Int)
  | findUnlockHash
  | releaseLockF (a : Addr)
  | releaseTest (a : Addr)
  | releaseDecUnlockF (a : Addr)
  | releaseDropF (a : Addr)
  | releaseLockHash (a : Addr)
  | releaseRelockF (a : Addr)
  | releaseRecheck (a : Addr)
  | releaseKeepUnlockF (a : Addr)
  | releaseKeepUnlockHash
  | releaseFreeUnlockHash (a : Addr)
  | releaseFreeUnlockF (a : Addr)
  | releaseFree (a : Addr)
  deriving DecidableEq

/-- Memory, references, mutex owners and the position of every thread. -/
structure LockState where
  table : Table
  refs : List (Tid × Addr)
  owner : Mutex → Option Tid
  pc : Tid → Pc

/-- A call by an idle thread, or the next instruction of a thread inside a call. -/
inductive LockAction
  | callAlloc (t : Tid) (a : Addr) (id : Int)
  | callHold (t : Tid) (a : Addr)
  | callFind (t : Tid) (id : Int)
  | callRelease (t : Tid) (a : Addr)
  | run (t : Tid)

namespace LockState

def init : LockState := ⟨.empty, [], fun _ => none, fun _ => .idle⟩

def goto (s : LockState) (t : Tid) (next : Pc) : LockState :=
  { s with pc := Function.update s.pc t next }

@[simp] theorem goto_owner (s : LockState) (t : Tid) (next : Pc) :
    (s.goto t next).owner = s.owner := rfl

@[simp] theorem goto_pc_self (s : LockState) (t : Tid) (next : Pc) :
    (s.goto t next).pc t = next := by
  simp [goto]

theorem goto_pc_of_ne (s : LockState) {t u : Tid} (h : u ≠ t) (next : Pc) :
    (s.goto t next).pc u = s.pc u := by
  simp [goto, h]

def lock (s : LockState) (t : Tid) (m : Mutex) (next : Pc) : Except Stop LockState :=
  if s.owner m = none then
    .ok { s.goto t next with owner := Function.update s.owner m (some t) }
  else .error .disabled

def unlock (s : LockState) (t : Tid) (m : Mutex) (next : Pc) : Except Stop LockState :=
  .ok { s.goto t next with owner := Function.update s.owner m none }

/-- Where a finished `foo_hold` returns to. -/
def afterHold : Caller → Pc
  | .thread => .idle
  | .fooFind => .findUnlockHash

/-- One instruction of the thread `t`. -/
def run (s : LockState) (t : Tid) : Except Stop LockState :=
  match s.pc t with
  | .idle => .error .disabled
  -- foo_alloc
  | .allocLockHash a id => s.lock t .hashlock (.allocLink a id)
  | .allocLink a id =>
      .ok { s.goto t (.allocLockF a) with
        table := s.table.fooAlloc a id, refs := (t, a) :: s.refs }
  | .allocLockF a => s.lock t (.fLock a) (.allocUnlockF a)
  | .allocUnlockF a => s.unlock t (.fLock a) .allocUnlockHash
  | .allocUnlockHash => s.unlock t .hashlock .idle
  -- foo_hold
  | .holdLockF c a => s.lock t (.fLock a) (.holdInc c a)
  | .holdInc c a => do
      let table ← access (s.table.incCount a)
      return { s.goto t (.holdUnlockF c a) with table, refs := (t, a) :: s.refs }
  | .holdUnlockF c a => s.unlock t (.fLock a) (afterHold c)
  -- foo_find
  | .findLockHash id => s.lock t .hashlock (.findScan id)
  | .findScan id => do
      match ← access (s.table.scan id) with
      | some a => return s.goto t (.holdLockF .fooFind a)
      | none => return s.goto t .findUnlockHash
  | .findUnlockHash => s.unlock t .hashlock .idle
  -- foo_release
  | .releaseLockF a => s.lock t (.fLock a) (.releaseTest a)
  | .releaseTest a => do
      let fp ← access (s.table.read a)
      if fp.fCount = 1 then
        return { s.goto t (.releaseDropF a) with refs := s.refs.erase (t, a) }
      else
        let table ← access (s.table.decCount a)
        return { s.goto t (.releaseDecUnlockF a) with table, refs := s.refs.erase (t, a) }
  | .releaseDecUnlockF a => s.unlock t (.fLock a) .idle
  | .releaseDropF a => s.unlock t (.fLock a) (.releaseLockHash a)
  | .releaseLockHash a => s.lock t .hashlock (.releaseRelockF a)
  | .releaseRelockF a => s.lock t (.fLock a) (.releaseRecheck a)
  | .releaseRecheck a => do
      let fp ← access (s.table.read a)
      if fp.fCount ≠ 1 then
        return s.goto t (.releaseKeepUnlockF a)
      else
        let table ← access (s.table.unlink a)
        return { s.goto t (.releaseFreeUnlockHash a) with table }
  | .releaseKeepUnlockF a => s.unlock t (.fLock a) .releaseKeepUnlockHash
  | .releaseKeepUnlockHash => s.unlock t .hashlock .idle
  | .releaseFreeUnlockHash a => s.unlock t .hashlock (.releaseFreeUnlockF a)
  | .releaseFreeUnlockF a => s.unlock t (.fLock a) (.releaseFree a)
  | .releaseFree a => .ok { s.goto t .idle with table := s.table.free a }

/-- `malloc` hands out a free address and `pthread_mutex_init` its unlocked mutex. -/
def callAlloc (s : LockState) (t : Tid) (a : Addr) (id : Int) : Except Stop LockState :=
  if s.pc t = .idle ∧ s.table.heap a = none then
    .ok { s.goto t (.allocLockHash a id) with
      table := s.table.store a ⟨1, id, none⟩
      owner := Function.update s.owner (.fLock a) none }
  else .error .disabled

def step (s : LockState) : LockAction → Except Stop LockState
  | .callAlloc t a id => s.callAlloc t a id
  | .callHold t a =>
      if s.pc t = .idle ∧ (t, a) ∈ s.refs then .ok (s.goto t (.holdLockF .thread a))
      else .error .disabled
  | .callFind t id =>
      if s.pc t = .idle then .ok (s.goto t (.findLockHash id)) else .error .disabled
  | .callRelease t a =>
      if s.pc t = .idle ∧ (t, a) ∈ s.refs then .ok (s.goto t (.releaseLockF a))
      else .error .disabled
  | .run t => s.run t

end LockState

/-- One instruction of one thread, in any order of threads. -/
def LockStep (s : LockState) (act : LockAction) (s' : LockState) : Prop :=
  s.step act = .ok s'

/-- The mutexes that `foo_hold` finds locked by its caller. -/
def Caller.held : Caller → List Mutex
  | .thread => []
  | .fooFind => [.hashlock]

/-- The mutexes a thread has locked and not yet unlocked at an instruction. -/
def Pc.held : Pc → List Mutex
  | .idle | .allocLockHash _ _ | .findLockHash _ | .releaseLockF _ | .releaseLockHash _
  | .releaseFree _ => []
  | .allocLink _ _ | .allocLockF _ | .allocUnlockHash | .findScan _ | .findUnlockHash
  | .releaseRelockF _ | .releaseKeepUnlockHash => [.hashlock]
  | .holdLockF c _ => c.held
  | .holdInc c a | .holdUnlockF c a => .fLock a :: c.held
  | .releaseTest a | .releaseDecUnlockF a | .releaseDropF a | .releaseFreeUnlockF a => [.fLock a]
  | .allocUnlockF a | .releaseRecheck a | .releaseKeepUnlockF a | .releaseFreeUnlockHash a =>
      [.fLock a, .hashlock]

/-- The mutex that a lock instruction asks for. -/
def Pc.wants : Pc → Option Mutex
  | .allocLockHash _ _ | .findLockHash _ | .releaseLockHash _ => some .hashlock
  | .allocLockF a | .holdLockF _ a | .releaseLockF a | .releaseRelockF a => some (.fLock a)
  | _ => none

/-- `t` owns the mutex. -/
def Holds (s : LockState) (t : Tid) (m : Mutex) : Prop := s.owner m = some t

/-- `t` is at a lock instruction for the mutex, and waits there while it is owned. -/
def Wants (s : LockState) (t : Tid) (m : Mutex) : Prop := (s.pc t).wants = some m

/-- A thread owns no more than the code before its next instruction has locked. -/
def OwnersHold (s : LockState) : Prop := ∀ m t, s.owner m = some t → m ∈ (s.pc t).held

namespace OwnersHold

variable {s s' : LockState} {t : Tid} {m : Mutex} {next : Pc}

/-- Memory accesses change no owner. -/
theorem goto (h : OwnersHold s) (keep : (s.pc t).held ⊆ next.held) :
    OwnersHold (s.goto t next) := by
  intro m u hm
  by_cases hut : u = t
  · subst hut
    simpa using keep (h m u hm)
  · simpa [LockState.goto_pc_of_ne s hut] using h m u hm

theorem lock (h : OwnersHold s) (keep : (s.pc t).held ⊆ next.held) (taken : m ∈ next.held)
    (hstep : s.lock t m next = .ok s') : OwnersHold s' := by
  rw [LockState.lock] at hstep
  split at hstep
  · cases hstep
    intro m' u hm'
    by_cases heq : m' = m
    · subst heq
      obtain rfl : t = u := by simpa using hm'
      simpa using taken
    · exact h.goto keep m' u (by simpa [heq] using hm')
  · cases hstep

theorem release (h : OwnersHold s) (keep : ∀ m' ∈ (s.pc t).held, m' ≠ m → m' ∈ next.held) :
    OwnersHold { s.goto t next with owner := Function.update s.owner m none } := by
  intro m' u hm'
  by_cases heq : m' = m
  · simp [heq] at hm'
  · have owned : s.owner m' = some u := by simpa [heq] using hm'
    by_cases hut : u = t
    · subst hut
      simpa using keep m' (h m' u owned) heq
    · simpa [LockState.goto_pc_of_ne s hut] using h m' u owned

theorem unlock (h : OwnersHold s) (keep : ∀ m' ∈ (s.pc t).held, m' ≠ m → m' ∈ next.held)
    (hstep : s.unlock t m next = .ok s') : OwnersHold s' := by
  cases hstep
  exact h.release keep

/-- One instruction of a thread, by the instruction it is at. -/
theorem run (h : OwnersHold s) (hstep : s.run t = .ok s') : OwnersHold s' := by
  unfold LockState.run at hstep
  cases hpc : s.pc t with
  | idle => simp [hpc] at hstep
  | allocLockHash a id =>
      rw [hpc] at hstep
      exact h.lock (by simp [hpc, Pc.held]) (by simp [Pc.held]) hstep
  | allocLink a id =>
      rw [hpc] at hstep
      cases hstep
      exact (h.goto (by simp [hpc, Pc.held]) : OwnersHold (s.goto t (.allocLockF a)))
  | allocLockF a =>
      rw [hpc] at hstep
      exact h.lock (by simp [hpc, Pc.held]) (by simp [Pc.held]) hstep
  | allocUnlockF a =>
      rw [hpc] at hstep
      exact h.unlock (by simp [hpc, Pc.held]) hstep
  | allocUnlockHash =>
      rw [hpc] at hstep
      exact h.unlock (by simp [hpc, Pc.held]) hstep
  | holdLockF c a =>
      rw [hpc] at hstep
      exact h.lock (by simp [hpc, Pc.held]) (by simp [Pc.held]) hstep
  | holdInc c a =>
      rw [hpc] at hstep
      obtain ⟨table, _, hstep⟩ := bind_ok hstep
      cases hstep
      exact (h.goto (by simp [hpc, Pc.held]) : OwnersHold (s.goto t (.holdUnlockF c a)))
  | holdUnlockF c a =>
      rw [hpc] at hstep
      exact h.unlock (by cases c <;> simp [hpc, Pc.held, Caller.held, LockState.afterHold]) hstep
  | findLockHash id =>
      rw [hpc] at hstep
      exact h.lock (by simp [hpc, Pc.held]) (by simp [Pc.held]) hstep
  | findScan id =>
      rw [hpc] at hstep
      obtain ⟨found, _, hstep⟩ := bind_ok hstep
      cases found with
      | none =>
          cases hstep
          exact h.goto (by simp [hpc, Pc.held])
      | some a =>
          cases hstep
          exact h.goto (by simp [hpc, Pc.held, Caller.held])
  | findUnlockHash =>
      rw [hpc] at hstep
      exact h.unlock (by simp [hpc, Pc.held]) hstep
  | releaseLockF a =>
      rw [hpc] at hstep
      exact h.lock (by simp [hpc, Pc.held]) (by simp [Pc.held]) hstep
  | releaseTest a =>
      rw [hpc] at hstep
      obtain ⟨fp, _, hstep⟩ := bind_ok hstep
      split at hstep
      · cases hstep
        exact (h.goto (by simp [hpc, Pc.held]) : OwnersHold (s.goto t (.releaseDropF a)))
      · obtain ⟨table, _, hstep⟩ := bind_ok hstep
        cases hstep
        exact (h.goto (by simp [hpc, Pc.held]) : OwnersHold (s.goto t (.releaseDecUnlockF a)))
  | releaseDecUnlockF a =>
      rw [hpc] at hstep
      exact h.unlock (by simp [hpc, Pc.held]) hstep
  | releaseDropF a =>
      rw [hpc] at hstep
      exact h.unlock (by simp [hpc, Pc.held]) hstep
  | releaseLockHash a =>
      rw [hpc] at hstep
      exact h.lock (by simp [hpc, Pc.held]) (by simp [Pc.held]) hstep
  | releaseRelockF a =>
      rw [hpc] at hstep
      exact h.lock (by simp [hpc, Pc.held]) (by simp [Pc.held]) hstep
  | releaseRecheck a =>
      rw [hpc] at hstep
      obtain ⟨fp, _, hstep⟩ := bind_ok hstep
      split at hstep
      · cases hstep
        exact h.goto (by simp [hpc, Pc.held])
      · obtain ⟨table, _, hstep⟩ := bind_ok hstep
        cases hstep
        exact (h.goto (by simp [hpc, Pc.held]) : OwnersHold (s.goto t (.releaseFreeUnlockHash a)))
  | releaseKeepUnlockF a =>
      rw [hpc] at hstep
      exact h.unlock (by simp [hpc, Pc.held]) hstep
  | releaseKeepUnlockHash =>
      rw [hpc] at hstep
      exact h.unlock (by simp [hpc, Pc.held]) hstep
  | releaseFreeUnlockHash a =>
      rw [hpc] at hstep
      exact h.unlock (by simp [hpc, Pc.held]) hstep
  | releaseFreeUnlockF a =>
      rw [hpc] at hstep
      exact h.unlock (by simp [hpc, Pc.held]) hstep
  | releaseFree a =>
      rw [hpc] at hstep
      cases hstep
      exact (h.goto (by simp [hpc, Pc.held]) : OwnersHold (s.goto t .idle))

/-- A call starts from `idle`, where nothing is held. -/
theorem step {act : LockAction} (h : OwnersHold s) (hstep : LockStep s act s') :
    OwnersHold s' := by
  cases act with
  | callAlloc t a id =>
      simp only [LockStep, LockState.step, LockState.callAlloc] at hstep
      split at hstep
      · rename_i guard
        cases hstep
        exact h.release (by simp [guard.1, Pc.held])
      · cases hstep
  | callHold t a =>
      simp only [LockStep, LockState.step] at hstep
      split at hstep
      · rename_i guard
        cases hstep
        exact h.goto (by simp [guard.1, Pc.held])
      · cases hstep
  | callFind t id =>
      simp only [LockStep, LockState.step] at hstep
      split at hstep
      · rename_i guard
        cases hstep
        exact h.goto (by simp [guard, Pc.held])
      · cases hstep
  | callRelease t a =>
      simp only [LockStep, LockState.step] at hstep
      split at hstep
      · rename_i guard
        cases hstep
        exact h.goto (by simp [guard.1, Pc.held])
      · cases hstep
  | run t => exact h.run hstep

end OwnersHold

theorem ownersHold_of_reachable {s : LockState} (h : Reachable LockStep .init s) :
    OwnersHold s :=
  h.invariant (by simp [OwnersHold, LockState.init]) fun _ _ _ inv hstep => inv.step hstep

/-- `hashlock` is taken before any `f_lock`. -/
def Mutex.rank : Mutex → Nat
  | .hashlock => 0
  | .fLock _ => 1

/-- At every lock instruction the mutex asked for comes after those still held. -/
theorem Pc.rank_lt (pc : Pc) {m m' : Mutex} (held : m ∈ pc.held) (wants : pc.wants = some m') :
    m.rank < m'.rank := by
  cases pc with
  | allocLockF a | releaseRelockF a =>
      obtain rfl : .fLock a = m' := Option.some.inj wants
      obtain rfl : m = .hashlock := List.mem_singleton.mp held
      simp [Mutex.rank]
  | holdLockF c a =>
      obtain rfl : .fLock a = m' := Option.some.inj wants
      cases c with
      | thread => cases held
      | fooFind =>
          obtain rfl : m = .hashlock := List.mem_singleton.mp held
          simp [Mutex.rank]
  | _ => simp_all [Pc.held, Pc.wants]

theorem respects_rank {s : LockState} (h : Reachable LockStep .init s) :
    Respects Mutex.rank (Wants s) (Holds s) :=
  fun t m _ holds wants => (s.pc t).rank_lt (ownersHold_of_reachable h m t holds) wants

/-- No thread asks for `hashlock` with an `f_lock` in hand or for a mutex it owns, and
no threads wait for each other in a circle. -/
structure DeadlockFree (s : LockState) : Prop where
  order : ∀ t a, Wants s t .hashlock → ¬ Holds s t (.fLock a)
  self : ∀ t m, Wants s t m → ¬ Holds s t m
  acyclic : ∀ t, ¬ Relation.TransGen (WaitsFor (Wants s) (Holds s)) t t

/-- Deadlock freedom of every interleaving of any number of threads. -/
theorem deadlock_free {s : LockState} (h : Reachable LockStep .init s) : DeadlockFree s where
  order t a wants holds := absurd (respects_rank h t _ _ holds wants) (by simp [Mutex.rank])
  self _ _ wants := (respects_rank h).not_self wants
  acyclic := (respects_rank h).acyclic

/-- One thread waits for `hashlock` while another holds it and an `f_lock`. -/
theorem deadlock_free_contended :
    ∃ s, Reachable LockStep .init s ∧ Wants s 1 .hashlock ∧ Holds s 2 .hashlock ∧
      Holds s 2 (.fLock 0) ∧ DeadlockFree s := by
  have run : ∃ s, Steps LockStep .init
      [.callAlloc 2 0 7, .run 2, .callFind 1 7, .run 2, .run 2] s ∧
      Wants s 1 .hashlock ∧ Holds s 2 .hashlock ∧ Holds s 2 (.fLock 0) :=
    ⟨_, Steps.of_foldlM_except rfl, rfl, rfl, rfl⟩
  obtain ⟨s, steps, wants, holds, holds'⟩ := run
  exact ⟨s, ⟨_, steps⟩, wants, holds, holds', deadlock_free ⟨_, steps⟩⟩

end UnixProgramming.FooTable
