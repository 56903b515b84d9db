import UnixProgramming.Library.CMemory
import UnixProgramming.Library.File
import UnixProgramming.Library.Transition
import Mathlib.Logic.Function.Basic

/-!
# `daemon_test1.c`: one instance through a lock file

Processes run `alread_runing` system call by system call on one `LOCKFILE`, in any order,
and each may exit at any time. `lockfile` is the function of the source, which takes no
lock. A process identifier is free again when its process has exited.
-/

namespace UnixProgramming.Daemon

open CMemory Transition

abbrev Pid := Nat

def EACCES : Nat := 13
def EAGAIN : Nat := 11

/-- `int lockfile(int fd) { return 0; }` -/
def lockfile (_fd : Nat) : Int := 0

/-- `sprintf(buf, "%ld", (long)getpid())` and the bytes `buf[0]` to `buf[strlen(buf)]`. -/
def pidText (p : Pid) : Block := decimal p ++ [0]

/-- The system call of `alread_runing` that comes next, or the value it has returned. -/
inductive Pc
  | absent
  | open
  | lockfile (fd : Nat)
  | ftruncate (fd : Nat)
  | write (fd : Nat)
  | returned (value : Int)
  deriving DecidableEq

/-- `LOCKFILE` if it exists, and where every process is. -/
structure State where
  file : Option Block
  pc : Pid → Pc

inductive Action
  | start (p : Pid)
  | open (p : Pid) (fd : Option Nat)
  | lockfile (p : Pid) (errno : Nat)
  | ftruncate (p : Pid)
  | write (p : Pid)
  | exit (p : Pid)
  deriving DecidableEq

def Action.isLockfile : Action → Bool
  | .lockfile _ _ => true
  | _ => false

namespace State

def init (file : Option Block) : State := ⟨file, fun _ => .absent⟩

def goto (s : State) (p : Pid) (next : Pc) : State :=
  { s with pc := Function.update s.pc p next }

@[simp] theorem goto_file (s : State) (p : Pid) (next : Pc) : (s.goto p next).file = s.file := rfl

@[simp] theorem goto_pc_self (s : State) (p : Pid) (next : Pc) : (s.goto p next).pc p = next := by
  simp [goto]

theorem goto_pc_of_ne (s : State) {p q : Pid} (h : q ≠ p) (next : Pc) :
    (s.goto p next).pc q = s.pc q := by
  simp [goto, h]

/-- One system call, with the value of an `open` and the error of a failing `lockfile`. -/
def step (s : State) : Action → Option State
  | .start p => if s.pc p = .absent then some (s.goto p .open) else none
  | .open p fd =>
      if s.pc p = .open then
        match fd with
        | some fd => some { s.goto p (.lockfile fd) with file := some (s.file.getD []) }
        -- exit(1)
        | none => some (s.goto p .absent)
      else none
  | .lockfile p errno =>
      match s.pc p with
      | .lockfile fd =>
          if lockfile fd < 0 then
            if errno = EACCES ∨ errno = EAGAIN then some (s.goto p (.returned 1))
            else some (s.goto p .absent)
          else some (s.goto p (.ftruncate fd))
      | _ => none
  | .ftruncate p =>
      match s.pc p with
      | .ftruncate fd => some { s.goto p (.write fd) with file := some [] }
      | _ => none
  | .write p =>
      match s.pc p with
      -- the descriptor is at offset 0
      | .write _ => some { s.goto p (.returned 0) with
          file := some (File.writeAt (s.file.getD []) 0 (pidText p)) }
      | _ => none
  | .exit p => if s.pc p ≠ .absent then some (s.goto p .absent) else none

end State

def Step (s : State) (act : Action) (s' : State) : Prop := s.step act = some s'

/-- The process is behind its `lockfile`, and lives. -/
def Pc.Locked : Pc → Prop
  | .ftruncate _ | .write _ => True
  | .returned value => value = 0
  | .absent | .open | .lockfile _ => False

/-- `lockfile` is called only while no other living process is behind its own call, as a
record lock would have it. -/
def Unlocked (s : State) : Action → Prop
  | .lockfile p _ => ∀ q, q ≠ p → ¬ (s.pc q).Locked
  | _ => True

/-- One instance at most, and its file is left alone. -/
structure SingleInstance (s : State) : Prop where
  unique : ∀ p q, s.pc p = .returned 0 → s.pc q = .returned 0 → p = q
  holds : ∀ p, s.pc p = .returned 0 → s.file = some (pidText p)
  undisturbed : ∀ p, s.pc p = .returned 0 →
    ∀ q s', ¬ Step s (.ftruncate q) s' ∧ ¬ Step s (.write q) s'

/-- The invariant of the runs that keep to the condition. -/
structure Inv (s : State) : Prop where
  one : ∀ p q, (s.pc p).Locked → (s.pc q).Locked → p = q
  truncated : ∀ p fd, s.pc p = .write fd → s.file = some []
  holds : ∀ p, s.pc p = .returned 0 → s.file = some (pidText p)

namespace Inv

variable {s s' : State} {p : Pid} {act : Action}

theorem init (file : Option Block) : Inv (.init file) where
  one p q locked := by simp [State.init, Pc.Locked] at locked
  truncated p fd writes := by simp [State.init] at writes
  holds p returned := by simp [State.init] at returned

/-- A process that does not get behind its `lockfile`, or leaves, is of no concern. -/
theorem leave (inv : Inv s) {next : Pc} (outside : ¬ next.Locked) : Inv (s.goto p next) where
  one q r hq hr := by
    by_cases hqp : q = p
    · subst hqp
      exact absurd (by simpa using hq) outside
    · by_cases hrp : r = p
      · subst hrp
        exact absurd (by simpa using hr) outside
      · rw [State.goto_pc_of_ne s hqp] at hq
        rw [State.goto_pc_of_ne s hrp] at hr
        exact inv.one q r hq hr
  truncated q fd hq := by
    by_cases hqp : q = p
    · subst hqp
      obtain rfl : next = .write fd := by simpa using hq
      exact absurd trivial outside
    · rw [State.goto_pc_of_ne s hqp] at hq
      exact inv.truncated q fd hq
  holds q hq := by
    by_cases hqp : q = p
    · subst hqp
      obtain rfl : next = .returned 0 := by simpa using hq
      exact absurd rfl outside
    · rw [State.goto_pc_of_ne s hqp] at hq
      exact inv.holds q hq

/-- An `open` creates the file, and leaves a file that exists as it is. -/
theorem create (inv : Inv s) : Inv { s with file := some (s.file.getD []) } where
  one := inv.one
  truncated q fd hq := by simp [inv.truncated q fd hq]
  holds q hq := by simp [inv.holds q hq]

/-- The only process behind its `lockfile` does as it likes with the file. -/
theorem sole {next : Pc} {file : Option Block} (others : ∀ q, q ≠ p → ¬ (s.pc q).Locked)
    (truncated : ∀ fd, next = .write fd → file = some [])
    (holds : next = .returned 0 → file = some (pidText p)) :
    Inv { s.goto p next with file } where
  one q r hq hr := by
    have isP (q : Pid) (hq : ((s.goto p next).pc q).Locked) : q = p := by
      by_contra hqp
      rw [State.goto_pc_of_ne s hqp] at hq
      exact others q hqp hq
    rw [isP q hq, isP r hr]
  truncated q fd hq := by
    by_cases hqp : q = p
    · subst hqp
      exact truncated fd (by simpa using hq)
    · have hq : s.pc q = .write fd := by rw [← hq, State.goto_pc_of_ne s hqp]
      exact absurd (by rw [hq]; trivial) (others q hqp)
  holds q hq := by
    by_cases hqp : q = p
    · subst hqp
      exact holds (by simpa using hq)
    · have hq : s.pc q = .returned 0 := by rw [← hq, State.goto_pc_of_ne s hqp]
      exact absurd (by rw [hq]; rfl) (others q hqp)

theorem others_of_locked (inv : Inv s) (locked : (s.pc p).Locked) :
    ∀ q, q ≠ p → ¬ (s.pc q).Locked :=
  fun q hqp hq => hqp (inv.one q p hq locked)

theorem step (inv : Inv s) (unlocked : Unlocked s act) (hstep : Step s act s') : Inv s' := by
  cases act with
  | start p =>
      simp only [Step, State.step, Option.ite_none_right_eq_some] at hstep
      obtain ⟨-, hstep⟩ := hstep
      cases hstep
      exact inv.leave id
  | «open» p fd =>
      simp only [Step, State.step, Option.ite_none_right_eq_some] at hstep
      obtain ⟨-, hstep⟩ := hstep
      cases fd with
      | none =>
          cases hstep
          exact inv.leave id
      | some fd =>
          cases hstep
          exact inv.create.leave id
  | lockfile p errno =>
      simp only [Step, State.step] at hstep
      split at hstep
      · rw [if_neg (by simp [lockfile])] at hstep
        cases hstep
        exact sole unlocked (by simp) (by simp)
      · cases hstep
  | ftruncate p =>
      simp only [Step, State.step] at hstep
      split at hstep
      · rename_i fd hpc
        cases hstep
        exact sole (inv.others_of_locked (by rw [hpc]; trivial)) (fun _ _ => rfl) (by simp)
      · cases hstep
  | write p =>
      simp only [Step, State.step] at hstep
      split at hstep
      · rename_i fd hpc
        cases hstep
        refine sole (inv.others_of_locked (by rw [hpc]; trivial)) (by simp) fun _ => ?_
        simp [inv.truncated p fd hpc, File.writeAt]
      · cases hstep
  | exit p =>
      simp only [Step, State.step, Option.ite_none_right_eq_some] at hstep
      obtain ⟨-, hstep⟩ := hstep
      cases hstep
      exact inv.leave id

/-- Only the calls of `lockfile` need the condition. -/
theorem steps {as : List Action} (inv : Inv s) (run : Steps Step s as s')
    (noLockfile : ∀ act ∈ as, act.isLockfile = false) : Inv s' := by
  induction run with
  | nil => exact inv
  | @cons s _ _ act as first _ ih =>
      have unlocked : Unlocked s act := by
        have other := noLockfile act List.mem_cons_self
        cases act <;> trivial
      exact ih (inv.step unlocked first) fun a mem => noLockfile a (List.mem_cons_of_mem act mem)

theorem singleInstance (inv : Inv s) : SingleInstance s where
  unique p q hp hq := inv.one p q (by rw [hp]; rfl) (by rw [hq]; rfl)
  holds := inv.holds
  undisturbed p hp q s' := by
    have alone (next : Pc) (hq : s.pc q = next) (locked : next.Locked) : next = .returned 0 := by
      obtain rfl : q = p := inv.one q p (by rw [hq]; exact locked) (by rw [hp]; rfl)
      rw [← hq, hp]
    constructor
    · intro hstep
      simp only [Step, State.step] at hstep
      split at hstep
      · rename_i fd hq
        cases alone _ hq trivial
      · cases hstep
    · intro hstep
      simp only [Step, State.step] at hstep
      split at hstep
      · rename_i fd hq
        cases alone _ hq trivial
      · cases hstep

end Inv

/-- Behind its `lockfile` a process returns 0 without the help of the others. -/
theorem exists_returned {s : State} {p : Pid} (locked : (s.pc p).Locked) :
    ∃ as t, (∀ act ∈ as, act.isLockfile = false) ∧ Steps Step s as t ∧ t.pc p = .returned 0 ∧
      ∀ q, q ≠ p → t.pc q = s.pc q := by
  have write (s : State) (fd : Nat) (hp : s.pc p = .write fd) :
      ∃ t, Step s (.write p) t ∧ t.pc p = .returned 0 ∧ ∀ q, q ≠ p → t.pc q = s.pc q := by
    refine ⟨_, by simp only [Step, State.step, hp]; rfl, by simp, fun q hq => ?_⟩
    exact State.goto_pc_of_ne s hq _
  cases hp : s.pc p with
  | absent | «open» | lockfile fd => simp [hp, Pc.Locked] at locked
  | returned value =>
      obtain rfl : value = 0 := by simpa [hp, Pc.Locked] using locked
      exact ⟨[], s, by simp, .nil s, hp, fun _ _ => rfl⟩
  | write fd =>
      obtain ⟨t, step, returned, same⟩ := write s fd hp
      exact ⟨[.write p], t, by simp [Action.isLockfile], .single step, returned, same⟩
  | ftruncate fd =>
      let s₁ : State := { s.goto p (.write fd) with file := some [] }
      have truncated : Step s (.ftruncate p) s₁ := by simp [Step, State.step, hp, s₁]
      obtain ⟨t, step, returned, same⟩ := write s₁ fd (s.goto_pc_self p (.write fd))
      refine ⟨[.ftruncate p, .write p], t, by simp [Action.isLockfile],
        .cons truncated (.single step), returned, fun q hq => ?_⟩
      rw [same q hq]
      exact State.goto_pc_of_ne s hq _


/-- One instance at a time in every run that calls `lockfile` only where a lock would be
granted. In such a run the condition is exact for each further call of `lockfile`: it holds
if and only if that call cannot lead to a second instance. -/
theorem single_instance {file : Option Block} {s : State}
    (h : Reachable (Guarded Unlocked Step) (.init file) s) :
    SingleInstance s ∧
      ∀ p fd errno, s.pc p = .lockfile fd →
        (Unlocked s (.lockfile p errno) ↔
          ∀ as t, (∀ act ∈ as, act.isLockfile = false) →
            Steps Step s (.lockfile p errno :: as) t → SingleInstance t) := by
  have inv : Inv s := h.invariant (.init file) fun _ _ _ inv hstep => inv.step hstep.1 hstep.2
  refine ⟨inv.singleInstance, fun p fd errno hp => ⟨fun unlocked as t noLockfile run => ?_, ?_⟩⟩
  · cases run with
    | cons first rest => exact ((inv.step unlocked first).steps rest noLockfile).singleInstance
  · intro safe q hqp locked
    have called : Step s (.lockfile p errno) (s.goto p (.ftruncate fd)) := by
      simp [Step, State.step, hp, lockfile]
    obtain ⟨as, t, asOk, runQ, returnedQ, sameQ⟩ := exists_returned
      (s := s.goto p (.ftruncate fd)) (p := q) (by rwa [State.goto_pc_of_ne s hqp])
    obtain ⟨bs, u, bsOk, runP, returnedP, sameP⟩ := exists_returned (s := t) (p := p)
      (by rw [sameQ p (Ne.symm hqp), State.goto_pc_self]; trivial)
    have both := safe (as ++ bs) u (by
      intro act mem
      obtain inAs | inBs := List.mem_append.mp mem
      · exact asOk act inAs
      · exact bsOk act inBs) (.cons called (runQ.append runP))
    exact hqp (both.unique q p (by rw [sameP q hqp, returnedQ]) returnedP)

/-- The second process starts its lock when the first one has exited. -/
theorem single_instance_restart :
    ∃ s, Reachable (Guarded Unlocked Step) (.init none) s ∧ s.pc 12 = .returned 0 ∧
      SingleInstance s := by
  have run : ∃ s, Steps (Guarded Unlocked Step) (.init none)
      [.start 7, .open 7 (some 3), .lockfile 7 0, .ftruncate 7, .write 7, .start 12, .exit 7,
        .open 12 (some 3), .lockfile 12 0, .ftruncate 12, .write 12] s ∧
      s.pc 12 = .returned 0 := by
    refine ⟨_, .cons ⟨trivial, rfl⟩ (.cons ⟨trivial, rfl⟩ (.cons ⟨fun q hq => ?_, rfl⟩
      (.cons ⟨trivial, rfl⟩ (.cons ⟨trivial, rfl⟩ (.cons ⟨trivial, rfl⟩ (.cons ⟨trivial, rfl⟩
        (.cons ⟨trivial, rfl⟩ (.cons ⟨fun q hq => ?_, rfl⟩ (.cons ⟨trivial, rfl⟩
          (.single ⟨trivial, rfl⟩)))))))))), rfl⟩
    · simp [State.goto, State.init, hq, Pc.Locked]
    · by_cases seven : q = 7
      · simp [State.goto, seven, Pc.Locked]
      · simp [State.goto, State.init, hq, seven, Pc.Locked]
  obtain ⟨s, steps, returned⟩ := run
  exact ⟨s, ⟨_, steps⟩, returned, (single_instance ⟨_, steps⟩).1⟩

/-- Two processes, one behind the other, are both told that they are the only one. -/
theorem two_instances :
    ∃ s, Reachable Step (.init none) s ∧ s.pc 7 = .returned 0 ∧ s.pc 12 = .returned 0 ∧
      s.file = some (pidText 12) ∧ ¬ SingleInstance s := by
  have run : ∃ s, Steps Step (.init none)
      [.start 7, .start 12, .open 7 (some 3), .lockfile 7 0, .ftruncate 7, .write 7,
        .open 12 (some 3), .lockfile 12 0, .ftruncate 12, .write 12] s ∧
      s.pc 7 = .returned 0 ∧ s.pc 12 = .returned 0 ∧ s.file = some (pidText 12) :=
    ⟨_, Steps.of_foldlM_option rfl, rfl, rfl, rfl⟩
  obtain ⟨s, steps, seven, twelve, file⟩ := run
  refine ⟨s, ⟨_, steps⟩, seven, twelve, file, fun single => ?_⟩
  cases single.unique 7 12 seven twelve

end UnixProgramming.Daemon
