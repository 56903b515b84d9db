import UnixProgramming.Library.Progress
import Mathlib.Logic.Function.Basic

/-!
# `signal_test1.c`: a thread that waits for signals

The main thread blocks `SIGINT` and `SIGQUIT` and waits for `quitflag` on a condition variable,
and a second thread takes the signals with `sigwait`. Both run instruction by instruction and in
any order, and signals come at any time. A signal that is blocked stays pending, once however
often it is sent. One that is not ends the process. The calls succeed.
-/

namespace UnixProgramming.SignalTest

open Transition

/-- The signals of `mask`. -/
inductive Signo
  | int
  | quit
  deriving DecidableEq

/-- A property of the two signals can be decided. -/
instance {p : Signo → Prop} [DecidablePred p] : Decidable (∀ g, p g) :=
  decidable_of_iff (p .int ∧ p .quit)
    ⟨fun h g => by cases g; exacts [h.1, h.2], fun h => ⟨h .int, h .quit⟩⟩

/-- The instruction of `thread_signal_test1` that comes next. -/
inductive MainPc
  | sigmask
  | create
  | lock
  | test
  | condWait
  | waiting
  | unlock
  | reset
  | restore
  | exit
  deriving DecidableEq

/-- The instruction of `thread_fun` that comes next. -/
inductive ThreadPc
  | absent
  | sigwait
  | interrupt
  | lock
  | set
  | print
  | unlock
  | condSignal
  | returned
  deriving DecidableEq

inductive Owner
  | main
  | thread
  deriving DecidableEq

inductive End
  | exited
  | killed (signo : Signo)
  deriving DecidableEq

/-- `waiter` says that the main thread waits on `waitloc` and has not been woken. `blocked` is
its mask; that of the second thread holds both signals. The last fields record the history: how
often each signal was sent, what was printed, and the signals that were pending when `SIGQUIT`
was taken or have come since. -/
structure State where
  main : MainPc
  thread : ThreadPc
  owner : Option Owner
  waiter : Bool
  quitflag : Nat
  blocked : Signo → Bool
  oldmask : Signo → Bool
  pending : Signo → Bool
  ended : Option End
  sent : Signo → Nat
  interrupts : Nat
  flags : List Nat
  late : Signo → Bool

inductive Action
  | main
  | thread
  | sigwait (signo : Signo)
  | deliver (signo : Signo)
  | send (signo : Signo)
  | wakeSpuriously
  deriving DecidableEq

/-- `SIGQUIT` has been taken. -/
def ThreadPc.quitting : ThreadPc → Bool
  | .lock | .set | .print | .unlock | .condSignal | .returned => true
  | .absent | .sigwait | .interrupt => false

namespace State

/-- A process that has some of the two signals blocked from the start. -/
def init (blocked : Signo → Bool) : State where
  main := .sigmask
  thread := .absent
  owner := none
  waiter := false
  quitflag := 0
  blocked := blocked
  oldmask := fun _ => false
  pending := fun _ => false
  ended := none
  sent := fun _ => 0
  interrupts := 0
  flags := []
  late := fun _ => false

/-- The next instruction of `thread_signal_test1`. -/
def runMain (s : State) : Option State :=
  match s.main with
  | .sigmask => some { s with oldmask := s.blocked, blocked := fun _ => true, main := .create }
  | .create => some { s with thread := .sigwait, main := .lock }
  | .lock => if s.owner = none then some { s with owner := some .main, main := .test } else none
  | .test => some { s with main := if s.quitflag = 0 then .condWait else .unlock }
  | .condWait => some { s with owner := none, waiter := true, main := .waiting }
  | .waiting =>
      if s.waiter = false ∧ s.owner = none then
        some { s with owner := some .main, main := .test }
      else none
  | .unlock => some { s with owner := none, main := .reset }
  | .reset => some { s with quitflag := 0, main := .restore }
  -- see `deliver`
  | .restore =>
      if ∀ g, s.pending g = true → s.oldmask g = true then
        some { s with blocked := s.oldmask, main := .exit }
      else none
  | .exit => some { s with ended := some .exited }

/-- The next instruction of `thread_fun`, but for `sigwait`. -/
def runThread (s : State) : Option State :=
  match s.thread with
  | .interrupt => some { s with interrupts := s.interrupts + 1, thread := .sigwait }
  | .lock => if s.owner = none then some { s with owner := some .thread, thread := .set } else none
  | .set => some { s with quitflag := 1, thread := .print }
  | .print => some { s with flags := s.flags ++ [s.quitflag], thread := .unlock }
  | .unlock => some { s with owner := none, thread := .condSignal }
  | .condSignal => some { s with waiter := false, thread := .returned }
  | .absent | .sigwait | .returned => none

/-- `sigwait` takes one of the signals that are pending. -/
def sigwait (s : State) (signo : Signo) : Option State :=
  if s.thread = .sigwait ∧ s.pending signo = true then
    let pending := Function.update s.pending signo false
    match signo with
    | .int => some { s with pending := pending, thread := .interrupt }
    | .quit => some { s with pending := pending, thread := .lock, late := pending }
  else none

/-- `sigprocmask` does not return before a signal that was pending is delivered. -/
def deliver (s : State) (signo : Signo) : Option State :=
  if s.main = .restore ∧ s.pending signo = true ∧ s.oldmask signo = false then
    some { s with ended := some (.killed signo) }
  else none

def send (s : State) (signo : Signo) : State :=
  { s with
    sent := Function.update s.sent signo (s.sent signo + 1)
    pending := Function.update s.pending signo true
    late := if s.thread.quitting then Function.update s.late signo true else s.late
    ended := if s.blocked signo then s.ended else some (.killed signo) }

def act (s : State) : Action → Option State
  | .main => s.runMain
  | .thread => s.runThread
  | .sigwait signo => s.sigwait signo
  | .deliver signo => s.deliver signo
  | .send signo => some (s.send signo)
  | .wakeSpuriously => if s.waiter = true then some { s with waiter := false } else none

def step (s : State) (act : Action) : Option State :=
  if s.ended = none then s.act act else none

end State

def Step (s : State) (act : Action) (s' : State) : Prop := s.step act = some s'

/-- The steps that the two threads make by themselves. -/
def Own (s : State) (act : Action) (s' : State) : Prop :=
  Guarded (fun _ act => (∀ g, act ≠ .send g) ∧ act ≠ .wakeSpuriously) Step s act s'

/-! ## One step -/

/-- What one step of a process does that has not ended. -/
inductive Effect (s : State) : Action → State → Prop
  | sigmask (at_ : s.main = .sigmask) :
      Effect s .main { s with
        oldmask := s.blocked, blocked := fun _ => true, main := .create }
  | create (at_ : s.main = .create) : Effect s .main { s with thread := .sigwait, main := .lock }
  | lock (at_ : s.main = .lock) (free : s.owner = none) :
      Effect s .main { s with owner := some .main, main := .test }
  | unset (at_ : s.main = .test) (flag : s.quitflag = 0) :
      Effect s .main { s with main := .condWait }
  | isSet (at_ : s.main = .test) (flag : s.quitflag ≠ 0) : Effect s .main { s with main := .unlock }
  | condWait (at_ : s.main = .condWait) :
      Effect s .main { s with owner := none, waiter := true, main := .waiting }
  | waked (at_ : s.main = .waiting) (woken : s.waiter = false) (free : s.owner = none) :
      Effect s .main { s with owner := some .main, main := .test }
  | unlock (at_ : s.main = .unlock) : Effect s .main { s with owner := none, main := .reset }
  | reset (at_ : s.main = .reset) : Effect s .main { s with quitflag := 0, main := .restore }
  | restore (at_ : s.main = .restore) (clear : ∀ g, s.pending g = true → s.oldmask g = true) :
      Effect s .main { s with blocked := s.oldmask, main := .exit }
  | exit (at_ : s.main = .exit) : Effect s .main { s with ended := some .exited }
  | interrupt (at_ : s.thread = .interrupt) :
      Effect s .thread { s with interrupts := s.interrupts + 1, thread := .sigwait }
  | threadLock (at_ : s.thread = .lock) (free : s.owner = none) :
      Effect s .thread { s with owner := some .thread, thread := .set }
  | set (at_ : s.thread = .set) : Effect s .thread { s with quitflag := 1, thread := .print }
  | print (at_ : s.thread = .print) :
      Effect s .thread { s with flags := s.flags ++ [s.quitflag], thread := .unlock }
  | threadUnlock (at_ : s.thread = .unlock) :
      Effect s .thread { s with owner := none, thread := .condSignal }
  | condSignal (at_ : s.thread = .condSignal) :
      Effect s .thread { s with waiter := false, thread := .returned }
  | takeInt (at_ : s.thread = .sigwait) (pending : s.pending .int = true) :
      Effect s (.sigwait .int) { s with
        pending := Function.update s.pending .int false, thread := .interrupt }
  | takeQuit (at_ : s.thread = .sigwait) (pending : s.pending .quit = true) :
      Effect s (.sigwait .quit) { s with
        pending := Function.update s.pending .quit false
        thread := .lock
        late := Function.update s.pending .quit false }
  | deliver (g : Signo) (at_ : s.main = .restore) (pending : s.pending g = true)
      (open_ : s.oldmask g = false) :
      Effect s (.deliver g) { s with ended := some (.killed g) }
  | send (g : Signo) : Effect s (.send g) (s.send g)
  | spurious (waiter : s.waiter = true) : Effect s .wakeSpuriously { s with waiter := false }

variable {s t s' : State} {act : Action} {as : List Action} {blocked : Signo → Bool}

theorem effect_main (h : s.runMain = some s') : Effect s .main s' := by
  unfold State.runMain at h
  split at h
  case h_1 at_ => cases h; exact .sigmask at_
  case h_2 at_ => cases h; exact .create at_
  case h_3 at_ =>
    obtain ⟨free, h⟩ := Option.ite_none_right_eq_some.mp h
    cases h
    exact .lock at_ free
  case h_4 at_ =>
    split at h
    · cases h; exact .unset at_ ‹_›
    · cases h; exact .isSet at_ ‹_›
  case h_5 at_ => cases h; exact .condWait at_
  case h_6 at_ =>
    obtain ⟨ready, h⟩ := Option.ite_none_right_eq_some.mp h
    cases h
    exact .waked at_ ready.1 ready.2
  case h_7 at_ => cases h; exact .unlock at_
  case h_8 at_ => cases h; exact .reset at_
  case h_9 at_ =>
    obtain ⟨clear, h⟩ := Option.ite_none_right_eq_some.mp h
    cases h
    exact .restore at_ clear
  case h_10 at_ => cases h; exact .exit at_

theorem effect_thread (h : s.runThread = some s') : Effect s .thread s' := by
  unfold State.runThread at h
  split at h
  case h_1 at_ => cases h; exact .interrupt at_
  case h_2 at_ =>
    obtain ⟨free, h⟩ := Option.ite_none_right_eq_some.mp h
    cases h
    exact .threadLock at_ free
  case h_3 at_ => cases h; exact .set at_
  case h_4 at_ => cases h; exact .print at_
  case h_5 at_ => cases h; exact .threadUnlock at_
  case h_6 at_ => cases h; exact .condSignal at_
  all_goals cases h

theorem effect (h : Step s act s') : s.ended = none ∧ Effect s act s' := by
  obtain ⟨alive, h⟩ := Option.ite_none_right_eq_some.mp h
  refine ⟨alive, ?_⟩
  cases act with
  | main => exact effect_main h
  | thread => exact effect_thread h
  | sigwait signo =>
      obtain ⟨⟨at_, pending⟩, h⟩ := Option.ite_none_right_eq_some.mp h
      cases signo with
      | int => cases h; exact .takeInt at_ pending
      | quit => cases h; exact .takeQuit at_ pending
  | deliver signo =>
      obtain ⟨⟨at_, pending, open_⟩, h⟩ := Option.ite_none_right_eq_some.mp h
      cases h
      exact .deliver signo at_ pending open_
  | send signo => cases h; exact .send signo
  | wakeSpuriously =>
      obtain ⟨waiter, h⟩ := Option.ite_none_right_eq_some.mp h
      cases h
      exact .spurious waiter

/-! ## The mutex and the flag -/

/-- The main thread between its lock and its unlock. -/
def MainPc.inside : MainPc → Bool
  | .test | .condWait | .unlock => true
  | .sigmask | .create | .lock | .waiting | .reset | .restore | .exit => false

def MainPc.behindLoop : MainPc → Bool
  | .unlock | .reset | .restore | .exit => true
  | .sigmask | .create | .lock | .test | .condWait | .waiting => false

def MainPc.behindReset : MainPc → Bool
  | .restore | .exit => true
  | .sigmask | .create | .lock | .test | .condWait | .waiting | .unlock | .reset => false

/-- The second thread between its lock and its unlock. -/
def ThreadPc.inside : ThreadPc → Bool
  | .set | .print | .unlock => true
  | .absent | .sigwait | .interrupt | .lock | .condSignal | .returned => false

/-- The flag has been set. -/
def ThreadPc.stored : ThreadPc → Bool
  | .print | .unlock | .condSignal | .returned => true
  | .absent | .sigwait | .interrupt | .lock | .set => false

/-- What the two threads know of each other through the mutex. A waiter that the signal has not
woken still has it before it. -/
structure Flag (s : State) : Prop where
  absent : s.thread = .absent ↔ s.main = .sigmask ∨ s.main = .create
  main : s.owner = some .main ↔ s.main.inside = true
  thread : s.owner = some .thread ↔ s.thread.inside = true
  unset : s.thread.stored = false → s.quitflag = 0
  set : s.thread.stored = true → s.main.behindReset = false → s.quitflag = 1
  left : s.main.behindLoop = true → s.thread.stored = true ∧ s.thread.inside = false
  empty : s.main = .condWait → s.thread.stored = false
  waiter : s.waiter = true → s.main = .waiting ∧ s.thread ≠ .returned
  flags : ∀ flag ∈ s.flags, flag = 1

theorem Flag.effect (flag : Flag s) (h : Effect s act s') : Flag s' := by
  obtain ⟨absent, main, thread, unset, set, left, empty, waiter, flags⟩ := flag
  cases h with
  | exit | deliver | send => exact ⟨absent, main, thread, unset, set, left, empty, waiter, flags⟩
  | spurious => exact ⟨absent, main, thread, unset, set, left, empty, nofun, flags⟩
  | condWait at_ =>
      have before : s.thread ≠ .returned := by
        intro returned
        have stored := empty at_
        rw [returned] at stored
        cases stored
      refine ⟨?_, ?_, ?_, ?_, ?_, ?_, ?_, ?_, flags⟩ <;> simp_all +decide
  | print at_ =>
      -- the main thread cannot have reset the flag, as it has not left its loop
      have value : s.quitflag = 1 := by
        apply set
        · rw [at_]
          rfl
        · cases at_main : s.main <;> simp_all +decide
      refine ⟨?_, ?_, ?_, ?_, ?_, ?_, ?_, ?_, ?flags⟩
      case flags =>
        intro flag mem
        obtain old | new := List.mem_append.mp mem
        · exact flags flag old
        · exact (List.mem_singleton.mp new).trans value
      all_goals simp_all +decide
  | set at_ =>
      have outside : s.main ≠ .condWait := by
        intro at_main
        have both := main.mpr (by rw [at_main]; rfl)
        rw [thread.mpr (by rw [at_]; rfl)] at both
        cases both
      refine ⟨?_, ?_, ?_, ?_, ?_, ?_, ?_, ?_, flags⟩ <;> simp_all +decide
  | lock at_ | unset at_ | isSet at_ | waked at_ | unlock at_ | reset at_ | restore at_
  | sigmask at_ | create at_ | interrupt at_ | threadLock at_ | threadUnlock at_
  | condSignal at_ | takeInt at_ | takeQuit at_ =>
      refine ⟨?_, ?_, ?_, ?_, ?_, ?_, ?_, ?_, flags⟩ <;> simp_all +decide

/-! ## The signals -/

/-- What was sent, what is pending, and what has ended the process. `blocked` is the mask that
the process had at first. -/
structure Signals (blocked : Signo → Bool) (s : State) : Prop where
  fresh : s.main = .sigmask → s.blocked = blocked
  old : s.main ≠ .sigmask → s.oldmask = blocked
  held : s.main ≠ .sigmask → s.main ≠ .exit → ∀ g, s.blocked g = true
  restored : s.main = .exit → s.blocked = blocked
  after : s.main = .exit → (∀ g, s.ended ≠ some (.killed g)) →
    ∀ g, s.pending g = true → blocked g = true
  late : s.thread.quitting = true → s.late = s.pending
  quit : s.sent .quit = 0 ↔ s.thread.quitting = false ∧ s.pending .quit = false
  ints : s.interrupts + (if s.thread = .interrupt then 1 else 0) + (s.pending .int).toNat ≤
    s.sent .int
  killed : ∀ g, s.ended = some (.killed g) → blocked g = false ∧ s.pending g = true ∧
    (s.main = .sigmask ∨ s.main.behindReset = true)
  exited : s.ended = some .exited → s.main = .exit

namespace Signals

/-- The main thread goes on, with both signals blocked before and after. -/
theorem main_moves (signals : Signals blocked s) (alive : s.ended = none)
    (source : s.main ≠ .sigmask ∧ s.main ≠ .exit) (target : t.main ≠ .sigmask ∧ t.main ≠ .exit)
    (same : t = { s with
      main := t.main, owner := t.owner, waiter := t.waiter, quitflag := t.quitflag }) :
    Signals blocked t := by
  rw [same]
  constructor
  case fresh => exact fun at_ => absurd at_ target.1
  case old => exact fun _ => signals.old source.1
  case held => exact fun _ _ => signals.held source.1 source.2
  case restored => exact fun at_ => absurd at_ target.2
  case after => exact fun at_ => absurd at_ target.2
  case late => exact signals.late
  case quit => exact signals.quit
  case ints => exact signals.ints
  case killed => exact fun g killed => absurd (alive.symm.trans killed) nofun
  case exited => exact fun exited => absurd (alive.symm.trans exited) nofun

/-- The second thread goes on and takes no signal. -/
theorem thread_moves (signals : Signals blocked s)
    (quitting : t.thread.quitting = s.thread.quitting)
    (interrupt : s.thread ≠ .interrupt ∧ t.thread ≠ .interrupt)
    (same : t = { s with
      thread := t.thread, owner := t.owner, waiter := t.waiter, quitflag := t.quitflag
      flags := t.flags }) :
    Signals blocked t := by
  have ints := signals.ints
  rw [if_neg interrupt.1] at ints
  rw [same]
  constructor
  case late => exact fun taken => signals.late (quitting ▸ taken)
  case quit =>
    refine signals.quit.trans ?_
    rw [← quitting]
  case ints => simpa [interrupt.2] using ints
  case fresh => exact signals.fresh
  case old => exact signals.old
  case held => exact signals.held
  case restored => exact signals.restored
  case after => exact signals.after
  case killed => exact signals.killed
  case exited => exact signals.exited

theorem sigmask (signals : Signals blocked s) (alive : s.ended = none) (at_ : s.main = .sigmask) :
    Signals blocked { s with
      oldmask := s.blocked, blocked := fun _ => true, main := .create } := by
  constructor
  case old => exact fun _ => signals.fresh at_
  case held => exact fun _ _ _ => rfl
  case late => exact signals.late
  case quit => exact signals.quit
  case ints => exact signals.ints
  case killed => exact fun g killed => absurd (alive.symm.trans killed) nofun
  case exited => exact fun exited => absurd (alive.symm.trans exited) nofun
  all_goals exact nofun

theorem restore (signals : Signals blocked s) (alive : s.ended = none) (at_ : s.main = .restore)
    (clear : ∀ g, s.pending g = true → s.oldmask g = true) :
    Signals blocked { s with blocked := s.oldmask, main := .exit } := by
  have old : s.oldmask = blocked := signals.old (by rw [at_]; nofun)
  constructor
  case old => exact fun _ => old
  case held => exact fun _ final => absurd rfl final
  case restored => exact fun _ => old
  case after => exact fun _ _ g pending => old ▸ clear g pending
  case late => exact signals.late
  case quit => exact signals.quit
  case ints => exact signals.ints
  case killed => exact fun g killed => absurd (alive.symm.trans killed) nofun
  case exited => exact fun exited => absurd (alive.symm.trans exited) nofun
  case fresh => exact nofun

/-- The process ends. -/
theorem ends {ended : End} (signals : Signals blocked s) (alive : s.ended = none)
    (killed : ∀ g, ended = .killed g → blocked g = false ∧ s.pending g = true ∧
      (s.main = .sigmask ∨ s.main.behindReset = true))
    (exited : ended = .exited → s.main = .exit) :
    Signals blocked { s with ended := some ended } := by
  constructor
  case after => exact fun at_ _ => signals.after at_ (fun g => by rw [alive]; nofun)
  case killed => exact fun g is => killed g (Option.some.inj is)
  case exited => exact fun is => exited (Option.some.inj is)
  case fresh => exact signals.fresh
  case old => exact signals.old
  case held => exact signals.held
  case restored => exact signals.restored
  case late => exact signals.late
  case quit => exact signals.quit
  case ints => exact signals.ints

theorem takeInt (signals : Signals blocked s) (alive : s.ended = none)
    (at_ : s.thread = .sigwait) (pending : s.pending .int = true) :
    Signals blocked { s with
      pending := Function.update s.pending .int false, thread := .interrupt } := by
  have fewer : ∀ g, Function.update s.pending .int false g = true → s.pending g = true := by
    intro g
    cases g <;> simp
  constructor
  case after => exact fun final alive g mem => signals.after final alive g (fewer g mem)
  case late => exact nofun
  case quit => simpa [at_, ThreadPc.quitting] using signals.quit
  case ints => simpa [at_, pending] using signals.ints
  case fresh => exact signals.fresh
  case old => exact signals.old
  case held => exact signals.held
  case restored => exact signals.restored
  case killed => exact fun g killed => absurd (alive.symm.trans killed) nofun
  case exited => exact signals.exited

theorem interrupt (signals : Signals blocked s) (at_ : s.thread = .interrupt) :
    Signals blocked { s with interrupts := s.interrupts + 1, thread := .sigwait } := by
  constructor
  case late => exact nofun
  case quit => simpa [at_, ThreadPc.quitting] using signals.quit
  case ints => simpa [at_] using signals.ints
  case fresh => exact signals.fresh
  case old => exact signals.old
  case held => exact signals.held
  case restored => exact signals.restored
  case after => exact signals.after
  case killed => exact signals.killed
  case exited => exact signals.exited

theorem takeQuit (signals : Signals blocked s) (alive : s.ended = none)
    (at_ : s.thread = .sigwait) (pending : s.pending .quit = true) :
    Signals blocked { s with
      pending := Function.update s.pending .quit false
      thread := .lock
      late := Function.update s.pending .quit false } := by
  have fewer : ∀ g, Function.update s.pending .quit false g = true → s.pending g = true := by
    intro g
    cases g <;> simp
  constructor
  case after => exact fun final alive g mem => signals.after final alive g (fewer g mem)
  case late => exact fun _ => rfl
  case quit => simpa [pending, ThreadPc.quitting] using signals.quit
  case ints => simpa [at_] using signals.ints
  case fresh => exact signals.fresh
  case old => exact signals.old
  case held => exact signals.held
  case restored => exact signals.restored
  case killed => exact fun g killed => absurd (alive.symm.trans killed) nofun
  case exited => exact signals.exited

/-- Only before `pthread_sigmask` and behind the last `sigprocmask` a signal can be open. -/
theorem of_open (signals : Signals blocked s) {g : Signo} (open_ : s.blocked g = false) :
    blocked g = false ∧ (s.main = .sigmask ∨ s.main = .exit) := by
  by_cases first : s.main = .sigmask
  · exact ⟨signals.fresh first ▸ open_, .inl first⟩
  · by_cases last : s.main = .exit
    · exact ⟨signals.restored last ▸ open_, .inr last⟩
    · exact absurd ((signals.held first last g).symm.trans open_) nofun

theorem send (signals : Signals blocked s) (alive : s.ended = none) (g : Signo) :
    Signals blocked (s.send g) := by
  have kill : ∀ e, (s.send g).ended = some e → s.blocked g = false ∧ e = .killed g := by
    intro e ended
    unfold State.send at ended
    by_cases held : s.blocked g = true
    · simp [held, alive] at ended
    · simp only [held, if_neg, Bool.false_eq_true, not_false_eq_true] at ended
      exact ⟨eq_false_of_ne_true held, (Option.some.inj ended).symm⟩
  constructor
  case after =>
    intro at_ unharmed h pending
    by_cases same : h = g
    · subst same
      by_contra open_
      have closed : s.blocked h = false :=
        (congrFun (signals.restored at_) h).trans (eq_false_of_ne_true open_)
      exact unharmed h (by simp [State.send, closed])
    · apply signals.after at_ (fun g => by rw [alive]; nofun)
      simpa [State.send, same] using pending
  case late =>
    intro taken
    have late := signals.late taken
    have taken' : s.thread.quitting = true := taken
    simp only [State.send, taken', if_true, late]
  case quit =>
    have quit := signals.quit
    cases g <;> simp_all [State.send]
  case ints =>
    have ints := signals.ints
    cases g with
    | int =>
        show s.interrupts + (if s.thread = .interrupt then 1 else 0) +
          (Function.update s.pending .int true .int).toNat ≤
            Function.update s.sent .int (s.sent .int + 1) .int
        rw [Function.update_self, Function.update_self, Bool.toNat_true]
        omega
    | quit => exact ints
  case killed =>
    intro h killed
    obtain ⟨open_, same⟩ := kill _ killed
    cases same
    obtain ⟨first, at_⟩ := signals.of_open open_
    refine ⟨first, Function.update_self .., at_.imp_right fun last => ?_⟩
    show s.main.behindReset = true
    rw [last]
    rfl
  case exited => exact fun exited => absurd (kill _ exited).2 nofun
  case fresh => exact signals.fresh
  case old => exact signals.old
  case held => exact signals.held
  case restored => exact signals.restored

theorem effect (signals : Signals blocked s) (flag : Flag s) (alive : s.ended = none)
    (h : Effect s act s') : Signals blocked s' := by
  cases h with
  | sigmask at_ => exact signals.sigmask alive at_
  | restore at_ clear => exact signals.restore alive at_ clear
  | create at_ =>
      have absent : s.thread = .absent := flag.absent.mpr (.inr at_)
      have created : Signals blocked { s with main := .lock } := by
        refine signals.main_moves alive ?_ ?_ rfl <;> simp [at_]
      refine created.thread_moves ?_ ?_ rfl <;> simp [absent, ThreadPc.quitting]
  | lock at_ | unset at_ | isSet at_ | condWait at_ | waked at_ | unlock at_ | reset at_ =>
      refine signals.main_moves alive ?_ ?_ rfl <;> simp [at_]
  | exit at_ => exact signals.ends alive nofun fun _ => at_
  | interrupt at_ => exact signals.interrupt at_
  | threadLock at_ | set at_ | print at_ | threadUnlock at_ | condSignal at_ =>
      refine signals.thread_moves ?_ ?_ rfl <;> simp [at_, ThreadPc.quitting]
  | takeInt at_ pending => exact signals.takeInt alive at_ pending
  | takeQuit at_ pending => exact signals.takeQuit alive at_ pending
  | deliver g at_ pending open_ =>
      refine signals.ends alive (fun h same => ?_) nofun
      cases same
      refine ⟨?_, pending, .inr (by rw [at_]; rfl)⟩
      rw [← signals.old (by rw [at_]; nofun)]
      exact open_
  | send g => exact signals.send alive g
  | spurious => exact { signals with }

end Signals

/-! ## Whole runs -/

/-- What holds at any point. -/
structure Inv (blocked : Signo → Bool) (s : State) : Prop where
  flag : Flag s
  signals : Signals blocked s

theorem Inv.step (inv : Inv blocked s) (h : Step s act s') : Inv blocked s' := by
  obtain ⟨alive, effect⟩ := effect h
  exact ⟨inv.flag.effect effect, inv.signals.effect inv.flag alive effect⟩

theorem inv_init (blocked : Signo → Bool) : Inv blocked (.init blocked) := by
  constructor
  · constructor <;>
      simp [State.init, MainPc.inside, ThreadPc.inside, ThreadPc.stored, MainPc.behindLoop]
  · constructor <;> simp [State.init, ThreadPc.quitting]

theorem inv_of_reachable (reachable : Reachable Step (.init blocked) s) : Inv blocked s :=
  reachable.invariant (inv_init blocked) fun _ _ _ inv h => inv.step h

/-! ## The threads by themselves -/

/-- The steps that the main thread can still make, up to a wakeup. -/
def State.mainRank (s : State) : Nat :=
  match s.main with
  | .sigmask => 10
  | .create => 9
  | .lock => 8
  | .test => 7
  | .condWait => 6
  | .waiting => if s.waiter then 5 else 8
  | .unlock => 4
  | .reset => 3
  | .restore => 2
  | .exit => 1

/-- The last step of the thread may wake the main thread, which then tests the flag again. -/
def ThreadPc.rank : ThreadPc → Nat
  | .interrupt => 9
  | .absent | .sigwait | .lock => 8
  | .set => 7
  | .print => 6
  | .unlock => 5
  | .condSignal => 4
  | .returned => 0

def State.rank (s : State) : Nat :=
  if s.ended = none then
    1 + s.mainRank + s.thread.rank + 2 * ((s.pending .int).toNat + (s.pending .quit).toNat)
  else 0

theorem State.rank_le (s : State) : s.rank ≤ 24 := by
  have main : s.mainRank ≤ 10 := by
    unfold mainRank
    split <;> first | omega | (split <;> omega)
  have thread : s.thread.rank ≤ 9 := by cases s.thread <;> decide
  have int := Bool.toNat_le (s.pending .int)
  have quit := Bool.toNat_le (s.pending .quit)
  unfold rank
  split <;> omega

theorem rank_lt_of_thread (alive : s.ended = none) (alive' : s'.ended = none)
    (main : s'.mainRank = s.mainRank) (pending : s'.pending = s.pending)
    (thread : s'.thread.rank < s.thread.rank) : s'.rank < s.rank := by
  rw [State.rank, State.rank, if_pos alive, if_pos alive', main, pending]
  omega

theorem rank_lt_of_main (alive : s.ended = none) (alive' : s'.ended = none)
    (main : s'.mainRank < s.mainRank) (pending : s'.pending = s.pending)
    (thread : s'.thread.rank = s.thread.rank) : s'.rank < s.rank := by
  rw [State.rank, State.rank, if_pos alive, if_pos alive', thread, pending]
  omega

theorem rank_lt_of_taken (alive : s.ended = none) (alive' : s'.ended = none)
    (main : s'.mainRank = s.mainRank)
    (pending : (s'.pending .int).toNat + (s'.pending .quit).toNat <
      (s.pending .int).toNat + (s.pending .quit).toNat)
    (thread : s'.thread.rank ≤ s.thread.rank + 1) : s'.rank < s.rank := by
  rw [State.rank, State.rank, if_pos alive, if_pos alive', main]
  omega

theorem rank_lt_of_ended (alive : s.ended = none) (ended : s'.ended ≠ none) :
    s'.rank < s.rank := by
  rw [State.rank, State.rank, if_pos alive, if_neg ended]
  omega

/-- Each step that the threads make by themselves uses up some of the rank. -/
theorem rank_lt (flag : Flag s) (h : Own s act s') : s'.rank < s.rank := by
  obtain ⟨⟨unsent, unwoken⟩, step⟩ := h
  obtain ⟨alive, effect⟩ := effect step
  cases effect with
  | sigmask at_ | lock at_ | unset at_ | isSet at_ | condWait at_ | unlock at_ | reset at_
  | restore at_ => exact rank_lt_of_main alive alive (by simp [State.mainRank, at_]) rfl rfl
  | waked at_ woken =>
      exact rank_lt_of_main alive alive (by simp [State.mainRank, at_, woken]) rfl rfl
  | create at_ =>
      have absent : s.thread = .absent := flag.absent.mpr (.inr at_)
      exact rank_lt_of_main alive alive (by simp [State.mainRank, at_]) rfl (by rw [absent]; rfl)
  | exit | deliver => exact rank_lt_of_ended alive nofun
  | interrupt at_ | threadLock at_ | set at_ | print at_ | threadUnlock at_ =>
      exact rank_lt_of_thread alive alive rfl rfl (by simp [ThreadPc.rank, at_])
  | condSignal at_ =>
      have main : State.mainRank { s with waiter := false, thread := .returned } ≤
          s.mainRank + 3 := by
        unfold State.mainRank
        cases s.main <;> simp
        split <;> omega
      rw [State.rank, State.rank, if_pos alive, if_pos alive, at_]
      simp only [ThreadPc.rank]
      omega
  | takeInt at_ pending =>
      refine rank_lt_of_taken alive alive rfl ?_ (by simp [at_, ThreadPc.rank])
      simp [pending]
  | takeQuit at_ pending =>
      refine rank_lt_of_taken alive alive rfl ?_ (by simp [at_, ThreadPc.rank])
      simp [pending]
  | send g => exact absurd rfl (unsent g)
  | spurious => exact absurd rfl unwoken


theorem ranked : Ranked Own (Inv blocked) State.rank where
  keeps _ _ _ inv h := inv.step h.2
  falls _ _ _ inv h := rank_lt inv.flag h

theorem own (alive : s.ended = none) (unsent : ∀ g, act ≠ .send g)
    (unwoken : act ≠ .wakeSpuriously) (h : s.act act = some t) : Own s act t := by
  refine ⟨⟨unsent, unwoken⟩, ?_⟩
  rw [Step, State.step, if_pos alive]
  exact h

/-- A main thread that cannot go on is at its lock or its wait. -/
theorem main_stuck (alive : s.ended = none) (stuck : Stuck Own s) :
    s.runMain = none ∧ (s.main = .lock ∨ s.main = .waiting) := by
  have none_ : s.runMain = none := by
    by_contra runs
    obtain ⟨t, run⟩ := Option.ne_none_iff_exists'.mp runs
    exact stuck .main t (own alive nofun nofun run)
  refine ⟨none_, ?_⟩
  cases at_ : s.main
  case lock => exact .inl rfl
  case waiting => exact .inr rfl
  case restore =>
    obtain ⟨g, pending, open_⟩ : ∃ g, s.pending g = true ∧ s.oldmask g = false := by
      simpa [State.runMain, at_] using none_
    have delivered : s.act (.deliver g) = some { s with ended := some (.killed g) } :=
      if_pos ⟨at_, pending, open_⟩
    have step : Own s (.deliver g) _ := own alive nofun nofun delivered
    exact absurd step (stuck _ _)
  all_goals simp [State.runMain, at_] at none_

/-- A second thread that cannot go on is at its lock or its `sigwait`, or it is not there. -/
theorem thread_stuck (alive : s.ended = none) (stuck : Stuck Own s) :
    s.runThread = none ∧ s.thread.inside = false ∧ s.thread ≠ .condSignal ∧
      s.thread ≠ .interrupt := by
  have none_ : s.runThread = none := by
    by_contra runs
    obtain ⟨t, run⟩ := Option.ne_none_iff_exists'.mp runs
    exact stuck .thread t (own alive nofun nofun run)
  refine ⟨none_, ?_⟩
  cases at_ : s.thread
  case absent | sigwait | returned | lock => exact ⟨rfl, nofun, nofun⟩
  all_goals simp [State.runThread, at_] at none_

/-- If nothing can go on, the main thread waits for the flag and the second one for a signal. -/
theorem idle (inv : Inv blocked s) (alive : s.ended = none) (stuck : Stuck Own s) :
    s.main = .waiting ∧ s.thread = .sigwait ∧ ∀ g, s.pending g = false := by
  obtain ⟨mainStuck, main⟩ := main_stuck alive stuck
  obtain ⟨threadStuck, outside, unsignalled, printed⟩ := thread_stuck alive stuck
  have free : s.owner = none := by
    cases owner : s.owner with
    | none => rfl
    | some who =>
        cases who with
        | main =>
            have inside := inv.flag.main.mp owner
            obtain at_ | at_ := main <;> rw [at_] at inside <;> cases inside
        | thread => exact absurd ((inv.flag.thread.mp owner).symm.trans outside) nofun
  have waiting : s.main = .waiting ∧ s.waiter = true := by
    obtain at_ | at_ := main
    · simp [State.runMain, at_, free] at mainStuck
    · exact ⟨at_, by simpa [State.runMain, at_, free] using mainStuck⟩
  have sigwait : s.thread = .sigwait := by
    cases at_ : s.thread
    case sigwait => rfl
    case absent =>
      have early := inv.flag.absent.mp at_
      rw [waiting.1] at early
      obtain early | early := early <;> cases early
    case returned => exact absurd at_ (inv.flag.waiter waiting.2).2
    case lock => simp [State.runThread, at_, free] at threadStuck
    case interrupt => exact absurd at_ printed
    case condSignal => exact absurd at_ unsignalled
    all_goals
      rw [at_] at outside
      cases outside
  refine ⟨waiting.1, sigwait, fun g => ?_⟩
  by_contra pending
  have taken : ∃ t, s.sigwait g = some t := by
    rw [State.sigwait, if_pos ⟨sigwait, eq_true_of_ne_false pending⟩]
    cases g <;> exact ⟨_, rfl⟩
  obtain ⟨t, taken⟩ := taken
  exact stuck (.sigwait g) t (own alive nofun nofun taken)

theorem behindLoop_of_behindReset {pc : MainPc} (behind : pc.behindReset = true) :
    pc.behindLoop = true := by
  cases pc <;> first | rfl | cases behind

/-- A main thread behind its loop has heard of a `SIGQUIT`. -/
theorem quitting_of_behindLoop (flag : Flag s) (behind : s.main.behindLoop = true) :
    s.thread.quitting = true := by
  have stored := (flag.left behind).1
  cases at_ : s.thread <;> simp_all [ThreadPc.stored, ThreadPc.quitting]

/-- The threads come to rest by themselves. Unless a signal has ended the process before its
second thread exists, it waits for ever exactly if no `SIGQUIT` has been sent, and reaches `exit(0)`
exactly if one has and every signal that was pending when it was taken, or came since, is blocked
anyway. -/
theorem quits (reachable : Reachable Step (.init blocked) s) :
    (∀ as t, Steps Own s as t → as.length ≤ 24) ∧
      (Stuck Own s → s.main ≠ .sigmask →
        (s.ended = none ↔ s.sent .quit = 0) ∧
        (s.ended = some .exited ↔
          0 < s.sent .quit ∧ ∀ g, s.late g = true → blocked g = true)) := by
  have inv := inv_of_reachable reachable
  constructor
  · intro as t run
    have short := ranked.length_le run inv
    have bound := s.rank_le
    omega
  · intro stuck late
    cases ended : s.ended with
    | none =>
        obtain ⟨-, sigwait, pending⟩ := idle inv ended stuck
        have unsent : s.sent .quit = 0 :=
          inv.signals.quit.mpr ⟨by rw [sigwait]; rfl, pending .quit⟩
        simp [unsent]
    | some how =>
        have behind : s.main.behindReset = true := by
          cases how with
          | exited => rw [inv.signals.exited ended]; rfl
          | killed g => exact (inv.signals.killed g ended).2.2.resolve_left late
        have quitting : s.thread.quitting = true :=
          quitting_of_behindLoop inv.flag (behindLoop_of_behindReset behind)
        have sent : s.sent .quit ≠ 0 := by
          intro unsent
          exact absurd ((inv.signals.quit.mp unsent).1.symm.trans quitting) nofun
        have exits : End.exited = how ↔ ∀ g, s.late g = true → blocked g = true := by
          rw [inv.signals.late quitting]
          cases how with
          | exited =>
              have after := inv.signals.after (inv.signals.exited ended) (by simp [ended])
              exact iff_of_true rfl after
          | killed g =>
              obtain ⟨open_, pending, -⟩ := inv.signals.killed g ended
              exact iff_of_false nofun fun all => by simp [all g pending] at open_
        refine ⟨iff_of_false nofun sent, ?_⟩
        rw [Option.some_inj, eq_comm, exits, and_iff_right (Nat.pos_of_ne_zero sent)]

/-- A `SIGINT` that comes behind the `SIGQUIT` ends the process before `exit(0)`. -/
theorem quits_late :
    ∃ s, Reachable Step (.init fun _ => false) s ∧ s.ended = some (.killed .int) ∧
      (s.ended = none ↔ s.sent .quit = 0) ∧
      (s.ended = some .exited ↔
        0 < s.sent .quit ∧ ∀ g, s.late g = true → (fun _ => false) g = true) := by
  have run : ∃ s, Steps Step (.init fun _ => false)
      [.main, .main, .main, .main, .main, .send .quit, .sigwait .quit, .thread, .thread, .thread,
        .thread, .thread, .main, .main, .main, .send .int, .main, .deliver .int] s ∧
      s.ended = some (.killed .int) ∧ s.main ≠ .sigmask :=
    ⟨_, Steps.of_foldlM_option rfl, rfl, by decide⟩
  obtain ⟨s, steps, ended, held⟩ := run
  have stuck : Stuck Own s := fun act t own => by
    have alive := (effect own.2).1
    simp [ended] at alive
  exact ⟨s, ⟨_, steps⟩, ended, (quits ⟨_, steps⟩).2 stuck held⟩

/-- No signal ends the process while it is blocked. It can be one that comes before the second
thread exists, or one that was pending when the `SIGQUIT` was taken, or came since, once the mask is
put back. -/
theorem unharmed (reachable : Reachable Step (.init blocked) s) :
    (∀ g, s.ended = some (.killed g) → blocked g = false ∧
      (s.main = .sigmask ∨ s.main.behindReset = true ∧ s.late g = true)) ∧
    (s.main.behindLoop = true → 0 < s.sent .quit) ∧
    s.interrupts ≤ s.sent .int ∧ ∀ flag ∈ s.flags, flag = 1 := by
  obtain ⟨flag, signals⟩ := inv_of_reachable reachable
  refine ⟨?_, ?_, ?_, flag.flags⟩
  · intro g ended
    obtain ⟨open_, pending, at_⟩ := signals.killed g ended
    refine ⟨open_, at_.imp_right fun behind => ⟨behind, ?_⟩⟩
    rw [signals.late (quitting_of_behindLoop flag (behindLoop_of_behindReset behind))]
    exact pending
  · intro behind
    have quitting := quitting_of_behindLoop flag behind
    apply Nat.pos_of_ne_zero
    intro unsent
    exact absurd ((signals.quit.mp unsent).1.symm.trans quitting) nofun
  · have ints := signals.ints
    omega

theorem unharmed_interrupt :
    ∃ s, Reachable Step (.init fun _ => false) s ∧ s.interrupts = 1 ∧
      s.interrupts ≤ s.sent .int := by
  have run : ∃ s, Steps Step (.init fun _ => false)
      [.main, .main, .send .int, .send .int, .sigwait .int, .thread] s ∧ s.interrupts = 1 :=
    ⟨_, Steps.of_foldlM_option rfl, rfl⟩
  obtain ⟨s, steps, printed⟩ := run
  exact ⟨s, ⟨_, steps⟩, printed, (unharmed ⟨_, steps⟩).2.2.1⟩

end UnixProgramming.SignalTest
