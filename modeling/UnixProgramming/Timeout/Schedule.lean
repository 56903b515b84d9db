import Mathlib.Logic.Function.Basic
import UnixProgramming.Library.Fallible
import UnixProgramming.Library.Timespec

/-!
# `lock_test5.c`: calling a function at a given time

`timeout` calls a function at once when its time has come, and otherwise lets a detached thread
wait for the difference. The block that tells the thread what to do belongs to `timeout` until
the thread runs, and to the thread from then on. The thread runs to its end before
`pthread_create` returns, or after `timeout` has returned, which does not touch the block in
between. What is called, in which order, is kept as a trace.
-/

namespace UnixProgramming.Timeout

open PosixTime Fallible

abbrev Addr := Nat

/-- `struct to_info`, for functions and arguments of any kind. -/
structure ToInfo (F A : Type) where
  toFn : F
  toArg : A
  toWait : Timespec
  deriving DecidableEq

/-- Who calls the function of the user. -/
inductive Caller
  | timeout
  | helper
  deriving DecidableEq

inductive Event (F A : Type)
  | malloc (a : Addr)
  | free (a : Addr)
  | makethread (tip : ToInfo F A)
  | nanosleep (wait : Timespec)
  | call (who : Caller) (func : F) (arg : A)
  deriving DecidableEq

/-- Why a run ends early: an access to a block that is not allocated, or `exit` in `ASSERT`. -/
inductive Stop
  | useAfterFree (a : Addr)
  | exit
  deriving DecidableEq

/-- The allocated blocks, the arguments of the threads that are still to run, and the trace. -/
structure World (F A : Type) where
  heap : Addr → Option (ToInfo F A)
  threads : List Addr
  trace : List (Event F A)

/-- The values of the calls in `makethread`, and whether the thread runs before `pthread_create`
returns. -/
structure Outcomes where
  attrInit : Int
  setdetachstate : Int
  create : Int
  early : Bool
  deriving DecidableEq

/-- No call in `makethread` fails. -/
def Outcomes.Succeed (o : Outcomes) : Prop :=
  o.attrInit = 0 ∧ o.setdetachstate = 0 ∧ o.create = 0

instance : DecidablePred Outcomes.Succeed := fun o =>
  inferInstanceAs (Decidable (o.attrInit = 0 ∧ o.setdetachstate = 0 ∧ o.create = 0))

def SECTONSEC : Int := 1000000000

/-- The test of `timeout`. Its last comparison is with `now.tv_sec`. -/
def isLater (when now : Timespec) : Prop :=
  when.tvSec > now.tvSec ∨ when.tvSec = now.tvSec ∧ when.tvNsec > now.tvSec

instance (when now : Timespec) : Decidable (isLater when now) :=
  inferInstanceAs
    (Decidable (when.tvSec > now.tvSec ∨ when.tvSec = now.tvSec ∧ when.tvNsec > now.tvSec))

/-- `tip->to_wait`. -/
def toWait (when now : Timespec) : Timespec :=
  if when.tvNsec ≥ now.tvNsec then ⟨when.tvSec - now.tvSec, when.tvNsec - now.tvNsec⟩
  else ⟨when.tvSec - now.tvSec - 1, SECTONSEC - now.tvNsec + when.tvNsec⟩

variable {F A : Type}

namespace World

def start (heap : Addr → Option (ToInfo F A)) : World F A := ⟨heap, [], []⟩

def emit (w : World F A) (e : Event F A) : World F A := ⟨w.heap, w.threads, w.trace ++ [e]⟩

/-- `malloc`, and the assignments to the fields of the block. -/
def malloc (w : World F A) (a : Addr) (tip : ToInfo F A) : World F A :=
  ⟨Function.update w.heap a (some tip), w.threads, w.trace ++ [.malloc a]⟩

def read (w : World F A) (a : Addr) : Except Stop (ToInfo F A) :=
  match w.heap a with
  | some tip => .ok tip
  | none => .error (.useAfterFree a)

def free (w : World F A) (a : Addr) : Except Stop (World F A) :=
  match w.heap a with
  | some _ => .ok ⟨Function.update w.heap a none, w.threads, w.trace ++ [.free a]⟩
  | none => .error (.useAfterFree a)

def timeoutHelper (w : World F A) (arg : Addr) : Except Stop (World F A) := do
  let tip ← w.read arg
  let w := w.emit (.nanosleep tip.toWait)
  let tip ← w.read arg
  let w := w.emit (.call .helper tip.toFn tip.toArg)
  w.free arg

/-- `pthread_create` with `timeout_helper`. -/
def pthreadCreate (w : World F A) (o : Outcomes) (arg : Addr) :
    Except Stop (Int × World F A) :=
  if o.create = 0 then
    if o.early then do
      let w ← w.timeoutHelper arg
      return (0, w)
    else return (0, ⟨w.heap, w.threads ++ [arg], w.trace⟩)
  else return (o.create, w)

def makethread (w : World F A) (o : Outcomes) (arg : Addr) : Except Stop (Int × World F A) :=
  if o.attrInit ≠ 0 then return (o.attrInit, w)
  else if o.setdetachstate = 0 then w.pthreadCreate o arg
  else return (o.setdetachstate, w)

/-- `block` is what `malloc` returns. -/
def timeout (w : World F A) (when now : Timespec) (func : F) (arg : A) (block : Option Addr)
    (o : Outcomes) : Except Stop (World F A) :=
  if isLater when now then
    match block with
    | none => .error .exit
    | some a => do
        let tip : ToInfo F A := ⟨func, arg, toWait when now⟩
        let w := w.malloc a tip
        let (err, w) ← (w.emit (.makethread tip)).makethread o a
        if err = 0 then return w
        else w.free a
  else return w.emit (.call .timeout func arg)

/-- The threads that were started run to their ends. -/
def join (w : World F A) : Except Stop (World F A) :=
  w.threads.foldlM timeoutHelper ⟨w.heap, [], w.trace⟩

end World

/-- A call of `timeout`, and the thread that it has started. -/
def run (heap : Addr → Option (ToInfo F A)) (when now : Timespec) (func : F) (arg : A)
    (block : Option Addr) (o : Outcomes) : Except Stop (World F A) := do
  let w ← (World.start heap).timeout when now func arg block o
  w.join

/-! ## The traces of a call -/

variable {heap : Addr → Option (ToInfo F A)} {when now : Timespec} {func : F} {arg : A}
  {a : Addr} {o : Outcomes}

theorem run_now (due : ¬ isLater when now) (block : Option Addr) :
    run heap when now func arg block o = .ok ⟨heap, [], [.call .timeout func arg]⟩ := by
  simp [run, World.timeout, due, World.start, World.emit, World.join]

theorem run_noMemory (later : isLater when now) :
    run heap when now func arg none o = .error .exit := by
  simp [run, World.timeout, later]

/-- The block of a call, while it is allocated. -/
def tip (when now : Timespec) (func : F) (arg : A) : ToInfo F A := ⟨func, arg, toWait when now⟩

/-- The world in which `makethread` is called. -/
def atMakethread (heap : Addr → Option (ToInfo F A)) (when now : Timespec) (func : F) (arg : A)
    (a : Addr) : World F A :=
  ⟨Function.update heap a (some (tip when now func arg)), [],
    [.malloc a, .makethread (tip when now func arg)]⟩

theorem run_later (later : isLater when now) :
    run heap when now func arg (some a) o =
      (atMakethread heap when now func arg a).makethread o a >>= fun r =>
        (if r.1 = 0 then pure r.2 else r.2.free a) >>= World.join := by
  simp only [run, World.timeout, if_pos later, bind_assoc]
  rfl

theorem free_eq {w : World F A} {info : ToInfo F A} (live : w.heap a = some info) :
    w.free a = .ok ⟨Function.update w.heap a none, w.threads, w.trace ++ [.free a]⟩ := by
  rw [World.free, live]

theorem timeoutHelper_eq {w : World F A} {info : ToInfo F A} (live : w.heap a = some info) :
    w.timeoutHelper a = .ok ⟨Function.update w.heap a none, w.threads,
      w.trace ++ [.nanosleep info.toWait, .call .helper info.toFn info.toArg, .free a]⟩ := by
  simp [World.timeoutHelper, World.read, World.emit, World.free, live]

theorem makethread_eq_of_succeed (w : World F A) (succeed : o.Succeed) :
    w.makethread o a = w.pthreadCreate o a := by
  obtain ⟨init, detach, -⟩ := succeed
  rw [World.makethread, if_neg (not_not.mpr init), if_pos detach]

/-- A failing call is reported, and no thread has been started. -/
theorem makethread_of_fails (w : World F A) (fails : ¬ o.Succeed) :
    ∃ err, err ≠ 0 ∧ w.makethread o a = .ok (err, w) := by
  rw [World.makethread]
  by_cases init : o.attrInit = 0
  · rw [if_neg (not_not.mpr init)]
    by_cases detach : o.setdetachstate = 0
    · have create : o.create ≠ 0 := fun create => fails ⟨init, detach, create⟩
      rw [if_pos detach, World.pthreadCreate, if_neg create]
      exact ⟨_, create, rfl⟩
    · rw [if_neg detach]
      exact ⟨_, detach, rfl⟩
  · rw [if_pos init]
    exact ⟨_, init, rfl⟩

/-- The thread waits, calls the function and frees the block, whenever it runs. -/
theorem run_started (later : isLater when now) (succeed : o.Succeed) :
    run heap when now func arg (some a) o =
      .ok ⟨Function.update (atMakethread heap when now func arg a).heap a none, [],
        [.malloc a, .makethread (tip when now func arg),
          .nanosleep (toWait when now), .call .helper func arg, .free a]⟩ := by
  have live : (atMakethread heap when now func arg a).heap a = some (tip when now func arg) :=
    Function.update_self a _ heap
  rw [run_later later, makethread_eq_of_succeed _ succeed, World.pthreadCreate,
    if_pos succeed.2.2]
  cases o.early with
  | true =>
      rw [if_pos rfl, timeoutHelper_eq live]
      rfl
  | false =>
      have joined : (⟨(atMakethread heap when now func arg a).heap, [a],
          (atMakethread heap when now func arg a).trace⟩ : World F A).join =
          (World.timeoutHelper ⟨(atMakethread heap when now func arg a).heap, [],
            (atMakethread heap when now func arg a).trace⟩ a) := by
        rw [World.join, List.foldlM_cons]
        exact bind_pure _
      rw [if_neg (by simp)]
      exact joined.trans (timeoutHelper_eq live)

/-- Where no thread is made, `timeout` frees the block and returns. -/
theorem run_failed (later : isLater when now) (fails : ¬ o.Succeed) :
    run heap when now func arg (some a) o =
      .ok ⟨Function.update (atMakethread heap when now func arg a).heap a none, [],
        [.malloc a, .makethread (tip when now func arg), .free a]⟩ := by
  have live : (atMakethread heap when now func arg a).heap a = some (tip when now func arg) :=
    Function.update_self a _ heap
  obtain ⟨err, error, made⟩ := makethread_of_fails (a := a)
    (atMakethread heap when now func arg a) fails
  rw [run_later later, made, ok_bind]
  simp only [if_neg error, free_eq live, ok_bind]
  rfl

/-! ## The time of the call -/

def makethreads (trace : List (Event F A)) : List (ToInfo F A) :=
  trace.filterMap fun
    | .makethread info => some info
    | _ => none

/-- The function is called at once exactly when its time has come. Otherwise the thread gets the
difference as the time to wait, and waits for it. -/
structure SchedulesRight (when now : Timespec) (func : F) (arg : A) (w : World F A) : Prop where
  immediate : .call .timeout func arg ∈ w.trace ↔ when ≤ now
  waits : ¬ when ≤ now → ∃ info, makethreads w.trace = [info] ∧ info.toWait.Normalised ∧
    0 ≤ info.toWait.tvSec ∧ now + info.toWait = when
  slept : ∀ info ∈ makethreads w.trace, ∀ wait, .nanosleep wait ∈ w.trace → wait = info.toWait

/-- A difference of normalised times with its borrow. -/
theorem toWait_spec (hw : when.Normalised) (hn : now.Normalised) (later : ¬ when ≤ now) :
    (toWait when now).Normalised ∧ 0 ≤ (toWait when now).tvSec ∧ now + toWait when now = when := by
  have order : ¬ (when.tvSec < now.tvSec ∨ when.tvSec = now.tvSec ∧ when.tvNsec ≤ now.tvNsec) :=
    later
  have normal : (toWait when now).Normalised ∧ 0 ≤ (toWait when now).tvSec ∧
      (toWait when now).nanos = when.nanos - now.nanos := by
    obtain ⟨hw, hw'⟩ := hw
    obtain ⟨hn, hn'⟩ := hn
    simp only [Timespec.Normalised, Timespec.nanos, second] at *
    rw [toWait]
    split
    · simp only
      omega
    · simp only [SECTONSEC]
      omega
  obtain ⟨normalised, nonneg, nanos⟩ := normal
  refine ⟨normalised, nonneg, (hn.add normalised).ext hw ?_⟩
  rw [Timespec.nanos_add, nanos]
  omega

/-- The test of `timeout` is right exactly where comparing with the wrong field makes no
difference. -/
theorem isLater_iff :
    (isLater when now ↔ ¬ when ≤ now) ↔
      when.tvSec ≠ now.tvSec ∨ (now.tvSec < when.tvNsec ↔ now.tvNsec < when.tvNsec) := by
  rw [isLater, Timespec.le_def]
  omega

/-- What the trace of a call says about the decision of `timeout`. -/
theorem schedulesRight_iff (hw : when.Normalised) (hn : now.Normalised) :
    ∃ w, run heap when now func arg (some a) o = .ok w ∧
      (SchedulesRight when now func arg w ↔ (isLater when now ↔ ¬ when ≤ now)) := by
  by_cases later : isLater when now
  · have decided (w : World F A) (direct : .call .timeout func arg ∉ w.trace)
        (made : makethreads w.trace = [tip when now func arg])
        (slept : ∀ wait, .nanosleep wait ∈ w.trace → wait = toWait when now) :
        SchedulesRight when now func arg w ↔ (isLater when now ↔ ¬ when ≤ now) := by
      constructor
      · intro h
        exact ⟨fun _ due => direct (h.immediate.mpr due), fun _ => later⟩
      · intro right
        have notDue := right.mp later
        refine ⟨⟨fun mem => absurd mem direct, fun due => absurd due notDue⟩, fun _ => ?_, ?_⟩
        · exact ⟨_, made, toWait_spec hw hn notDue⟩
        · rw [made]
          intro info mem wait waited
          rw [List.mem_singleton.mp mem]
          exact slept wait waited
    by_cases succeed : o.Succeed
    · exact ⟨_, run_started later succeed, decided _ (by simp) rfl (by simp)⟩
    · exact ⟨_, run_failed later succeed, decided _ (by simp) rfl (by simp)⟩
  · refine ⟨_, run_now later (some a), ?_⟩
    constructor
    · intro h
      have due : when ≤ now := h.immediate.mp (by simp)
      exact ⟨fun later' => absurd later' later, fun notDue => absurd due notDue⟩
    · intro right
      have due : when ≤ now := by
        by_contra notDue
        exact later (right.mpr notDue)
      exact ⟨⟨fun _ => due, fun _ => by simp⟩, fun notDue => absurd due notDue,
        by simp [makethreads]⟩

/-- `timeout` schedules its call for the right time exactly where the seconds differ, or where
the nanoseconds compare alike with the seconds and with the nanoseconds of the current time. -/
theorem timeout_schedules_iff (heap : Addr → Option (ToInfo F A)) (func : F) (arg : A) (a : Addr)
    (o : Outcomes) (hw : when.Normalised) (hn : now.Normalised) :
    ∃ w, run heap when now func arg (some a) o = .ok w ∧
      (SchedulesRight when now func arg w ↔
        when.tvSec ≠ now.tvSec ∨ (now.tvSec < when.tvNsec ↔ now.tvNsec < when.tvNsec)) := by
  obtain ⟨w, result, right⟩ := schedulesRight_iff hw hn
  exact ⟨w, result, right.trans isLater_iff⟩

/-- A call for the next second, less than a second ahead. -/
theorem timeout_schedules_borrow :
    ∃ w, run (fun _ => none) ⟨1700000001, 200000000⟩ ⟨1700000000, 900000000⟩ () () (some 0)
        ⟨0, 0, 0, true⟩ = .ok w ∧
      SchedulesRight ⟨1700000001, 200000000⟩ ⟨1700000000, 900000000⟩ () () w := by
  have hw : Timespec.Normalised ⟨1700000001, 200000000⟩ := by decide
  have hn : Timespec.Normalised ⟨1700000000, 900000000⟩ := by decide
  obtain ⟨w, result, right⟩ :=
    timeout_schedules_iff (fun _ => none) () () 0 ⟨0, 0, 0, true⟩ hw hn
  exact ⟨w, result, right.mpr (by decide)⟩

/-- Half a second too early: the seconds are equal, so the function is called at once. -/
theorem timeout_calls_early :
    Timespec.Normalised ⟨1700000000, 500000000⟩ ∧ Timespec.Normalised ⟨1700000000, 0⟩ ∧
      ∃ w, run (fun _ => none) ⟨1700000000, 500000000⟩ ⟨1700000000, 0⟩ () () (some 0)
          ⟨0, 0, 0, true⟩ = .ok w ∧ w.trace = [.call .timeout () ()] ∧
        ¬ SchedulesRight ⟨1700000000, 500000000⟩ ⟨1700000000, 0⟩ () () w := by
  have early : ¬ isLater ⟨1700000000, 500000000⟩ ⟨1700000000, 0⟩ := by decide
  refine ⟨by decide, by decide, _, run_now early (some 0), rfl, ?_⟩
  intro h
  have due := h.immediate.mp List.mem_cons_self
  exact absurd due (by decide)

/-! ## The callback and the block -/

/-- The calls of the user's function, by whomever. -/
def callbacks (trace : List (Event F A)) : List (F × A) :=
  trace.filterMap fun
    | .call _ func arg => some (func, arg)
    | _ => none

def mallocs (trace : List (Event F A)) : List Addr :=
  trace.filterMap fun
    | .malloc a => some a
    | _ => none

def frees (trace : List (Event F A)) : List Addr :=
  trace.filterMap fun
    | .free a => some a
    | _ => none

/-- The function is called once with its argument, and each block that was allocated is freed
once. A use of a freed block would have ended the run. -/
structure RunsOnce (func : F) (arg : A) (w : World F A) : Prop where
  callback : callbacks w.trace = [(func, arg)]
  freed : frees w.trace = mallocs w.trace

/-- `timeout` runs its callback once exactly where it does not need a thread or gets one. The
block is freed once in every case. -/
theorem timeout_runs_once_iff (heap : Addr → Option (ToInfo F A)) (when now : Timespec) (func : F)
    (arg : A) (a : Addr) (o : Outcomes) :
    ∃ w, run heap when now func arg (some a) o = .ok w ∧
      (RunsOnce func arg w ↔ ¬ isLater when now ∨ o.Succeed) := by
  by_cases later : isLater when now
  · by_cases succeed : o.Succeed
    · exact ⟨_, run_started later succeed, fun _ => .inr succeed, fun _ => ⟨rfl, rfl⟩⟩
    · refine ⟨_, run_failed later succeed, ?_⟩
      constructor
      · intro h
        exact absurd h.callback (by simp [callbacks])
      · intro h
        obtain due | made := h
        · exact absurd later due
        · exact absurd made succeed
  · exact ⟨_, run_now later (some a), fun _ => .inl later, fun _ => ⟨rfl, rfl⟩⟩

/-- `pthread_attr_init` fails, and the function is never called. -/
theorem timeout_drops_callback :
    ∃ w, run (fun _ => none) ⟨1700000010, 0⟩ ⟨1700000000, 0⟩ () () (some 0) ⟨12, 0, 0, true⟩ =
        .ok w ∧ callbacks w.trace = [] ∧ ¬ RunsOnce () () w := by
  have later : isLater ⟨1700000010, 0⟩ ⟨1700000000, 0⟩ := by decide
  refine ⟨_, run_failed later (by decide), rfl, ?_⟩
  intro h
  exact absurd h.callback (by simp [callbacks])

end UnixProgramming.Timeout
