import UnixProgramming.Library.Progress
import UnixProgramming.ProcessRelation.SystemM1
import Mathlib.Logic.Function.Basic

/-!
# `abort1` of `process_relation.c`

A process calls `abort1` with any dispositions, any mask and any pending signals. Signals come at
any time, and a handler may do what it likes: change dispositions and the mask, write, send
signals, be interrupted by other handlers, return, or never come back. When it returns, the mask
is what it was before. With `SA_RESETHAND`, a handler is gone when it starts to run. `kill` does
not return to its caller before the signal that it has sent is delivered, unless the signal is
blocked. `SIGKILL` and `SIGSTOP` are left out.
-/

namespace UnixProgramming.ProcessRelation.Abort

open Transition

def SIGABRT : Nat := 6

def SA_RESETHAND : Int := 0x80000000

def SA_NODEFER : Int := 0x40000000

/-- `flag` is one bit. -/
def hasFlag (act : Sigaction) (flag : Int) : Bool := act.saFlags / flag % 2 = 1

/-- The instruction of `abort1` that comes next. -/
inductive Pc
  | query
  | testIgnored
  | setDefault
  | testDefault
  | flush
  | mask
  | kill
  | killed
  | flushAgain
  | setDefaultAgain
  | maskAgain
  | killAgain
  | killedAgain
  | exit
  deriving DecidableEq

inductive End
  | signalled (signo : Nat)
  -- a handler has called `exit` or `longjmp`
  | left
  | exited (status : Int)
  deriving DecidableEq

/-- `saved` holds the masks that the running handlers restore, innermost first. `unwritten` says
that output from before the call is still in the buffer of a stream, and `touched` that a handler
has changed the disposition of `SIGABRT`. -/
structure State where
  pc : Pc
  act : Sigaction
  disposition : Nat → Sigaction
  blocked : Nat → Bool
  pending : Nat → Bool
  saved : List (Nat → Bool)
  unwritten : Bool
  touched : Bool
  ended : Option End

/-- The next instruction of `abort1`, a signal, its delivery, and what the innermost handler can
do. `fatal` says what the default action of a signal other than `SIGABRT` is. -/
inductive Action
  | run
  | arrive (signo : Nat)
  | deliver (signo : Nat) (fatal : Bool)
  | sigaction (signo : Nat) (act : Sigaction)
  | sigprocmask (blocked : Nat → Bool)
  | fflush
  | leave
  | sigreturn

namespace State

def init (disposition : Nat → Sigaction) (blocked pending : Nat → Bool) (unwritten : Bool)
    (act : Sigaction) : State where
  pc := .query
  act := act
  disposition := disposition
  blocked := blocked
  pending := pending
  saved := []
  unwritten := unwritten
  touched := false
  ended := none

/-- `sigfillset(&mask); sigdelset(&mask, SIGABRT)` -/
def allButAbort (signo : Nat) : Bool := signo ≠ SIGABRT

/-- `act.sa_handler = SIG_DFL` -/
def setHandler (s : State) : State := { s with act := { s.act with saHandler := .dfl } }

def installAct (s : State) : State :=
  { s with disposition := Function.update s.disposition SIGABRT s.act }

/-- `kill(getpid(), SIGABRT)` has returned. -/
def delivered (s : State) : Prop := s.pending SIGABRT = false ∨ s.blocked SIGABRT = true

instance (s : State) : Decidable s.delivered := inferInstanceAs (Decidable (_ ∨ _))

def run (s : State) : Option State :=
  match s.pc with
  | .query => some { s with act := s.disposition SIGABRT, pc := .testIgnored }
  | .testIgnored =>
      if s.act.saHandler = .ign then some { s.setHandler with pc := .setDefault }
      else some { s with pc := .testDefault }
  | .setDefault => some { s.installAct with pc := .testDefault }
  | .testDefault => some { s with pc := if s.act.saHandler = .dfl then .flush else .mask }
  | .flush => some { s with unwritten := false, pc := .mask }
  | .mask => some { s with blocked := allButAbort, pc := .kill }
  | .kill => some { s with pending := Function.update s.pending SIGABRT true, pc := .killed }
  | .killed => if s.delivered then some { s with pc := .flushAgain } else none
  | .flushAgain => some { s with unwritten := false, pc := .setDefaultAgain }
  | .setDefaultAgain => some { s.setHandler.installAct with pc := .maskAgain }
  | .maskAgain => some { s with blocked := allButAbort, pc := .killAgain }
  | .killAgain =>
      some { s with pending := Function.update s.pending SIGABRT true, pc := .killedAgain }
  | .killedAgain => if s.delivered then some { s with pc := .exit } else none
  | .exit => some { s with ended := some (.exited 1) }

/-- A signal that is pending and not blocked takes its effect. A handler runs with its own signal
and `sa_mask` blocked, as `sa_flags` say. -/
def deliver (s : State) (signo : Nat) (fatal : Bool) : Option State :=
  if s.pending signo = true ∧ s.blocked signo = false then
    let taken := { s with pending := Function.update s.pending signo false }
    match (s.disposition signo).saHandler with
    | .ign => some taken
    | .dfl =>
        if signo = SIGABRT ∨ fatal = true then
          some { taken with ended := some (.signalled signo) }
        else some taken
    | .function _ =>
        let action := s.disposition signo
        some { taken with
          disposition :=
            if hasFlag action SA_RESETHAND then
              Function.update s.disposition signo { action with saHandler := .dfl }
            else s.disposition
          saved := s.blocked :: s.saved
          blocked := fun g =>
            s.blocked g || g ∈ action.saMask || (g = signo && !hasFlag action SA_NODEFER) }
  else none

/-- What the innermost handler does. -/
def handle (s : State) (saved : Nat → Bool) (rest : List (Nat → Bool)) : Action → Option State
  | .sigaction signo act =>
      some { s with
        disposition := Function.update s.disposition signo act
        touched := s.touched || signo = SIGABRT }
  | .sigprocmask blocked => some { s with blocked := blocked }
  | .fflush => some { s with unwritten := false }
  | .leave => some { s with ended := some .left }
  | .sigreturn => some { s with blocked := saved, saved := rest }
  | .run | .arrive _ | .deliver _ _ => none

def step (s : State) (act : Action) : Option State :=
  if s.ended = none then
    match act with
    | .run => if s.saved = [] then s.run else none
    | .arrive signo => some { s with pending := Function.update s.pending signo true }
    | .deliver signo fatal => s.deliver signo fatal
    | act =>
        match s.saved with
        | saved :: rest => s.handle saved rest act
        | [] => none
  else none

end State

def Step (s : State) (act : Action) (s' : State) : Prop := s.step act = some s'

/-- The instructions of `abort1`, and the delivery of `SIGABRT`. -/
def Own (s : State) (act : Action) (s' : State) : Prop :=
  Guarded (fun _ act => act = .run ∨ ∃ fatal, act = .deliver SIGABRT fatal) Step s act s'

/-! ## The invariant -/

/-- Behind the first `sigprocmask`. -/
def Pc.masked : Pc → Bool
  | .kill | .killed | .flushAgain | .setDefaultAgain | .maskAgain | .killAgain | .killedAgain
  | .exit => true
  | .query | .testIgnored | .setDefault | .testDefault | .flush | .mask => false

/-- Behind the last `sigaction`. -/
def Pc.final : Pc → Bool
  | .maskAgain | .killAgain | .killedAgain | .exit => true
  | .query | .testIgnored | .setDefault | .testDefault | .flush | .mask | .kill | .killed
  | .flushAgain | .setDefaultAgain => false

/-- `act` is what was installed for `SIGABRT` when it was asked for, or what `abort1` has
installed since. -/
def Pc.asked : Pc → Bool
  | .testIgnored | .testDefault | .flush | .mask | .kill | .killed | .flushAgain
  | .setDefaultAgain => true
  | .query | .setDefault | .maskAgain | .killAgain | .killedAgain | .exit => false

/-- Behind the first `fflush`, or the place where it would be. -/
def Pc.flushed : Pc → Bool
  | .mask | .kill | .killed | .flushAgain => true
  | .query | .testIgnored | .setDefault | .testDefault | .flush | .setDefaultAgain | .maskAgain
  | .killAgain | .killedAgain | .exit => false

/-- The handler that `abort1` has found for `SIGABRT` is there for one signal only. -/
def State.OneShot (s : State) : Prop :=
  s.act.saHandler ≠ .dfl ∧ hasFlag s.act SA_RESETHAND = true

/-- The mask of `abort1` itself, which the outermost handler restores. -/
def State.own (s : State) : Nat → Bool := (s.saved.getLast?).getD s.blocked

structure Inv (s : State) : Prop where
  mask : s.pc.masked = true → s.own = State.allButAbort
  alone : s.pc.final = true → s.saved = []
  dfl : s.pc.final = true → (s.disposition SIGABRT).saHandler = .dfl
  sent : s.pc = .killedAgain → s.ended = none → s.pending SIGABRT = true
  returned : s.pc ≠ .exit
  asked : s.pc.asked = true → s.touched = false → hasFlag s.act SA_RESETHAND = false →
    s.disposition SIGABRT = s.act
  flush : s.pc = .flush → s.act.saHandler = .dfl
  flushed : s.pc.flushed = true → s.act.saHandler = .dfl → s.unwritten = false
  again : s.pc = .setDefaultAgain ∨ s.pc.final = true → s.unwritten = false
  exited : ∀ status, s.ended ≠ some (.exited status)
  signalled : ∀ g, s.ended = some (.signalled g) → s.pc.masked = true → s.saved = [] →
    g = SIGABRT
  left : s.ended = some .left → s.saved ≠ []
  lost : s.ended = some (.signalled SIGABRT) → s.pc.masked = true → s.unwritten = true →
    s.touched = true ∨ s.OneShot

variable {s t s' : State} {act : Action} {as : List Action}

/-- Outside of handlers only `SIGABRT` gets through. -/
theorem Inv.only_abort (inv : Inv s) (masked : s.pc.masked = true) (outside : s.saved = [])
    {g : Nat} (open_ : s.blocked g = false) : g = SIGABRT := by
  have mask := inv.mask masked
  simp only [State.own, outside, List.getLast?_nil, Option.getD_none] at mask
  simpa [mask, State.allButAbort] using open_

theorem masked_of_final {pc : Pc} (final : pc.final = true) : pc.masked = true := by
  cases pc <;> first | rfl | cases final

/-- What one instruction of `abort1` can do. -/
inductive Runs (s : State) : State → Prop
  | query (at_ : s.pc = .query) :
      Runs s { s with act := s.disposition SIGABRT, pc := .testIgnored }
  | ignored (at_ : s.pc = .testIgnored) : Runs s { s.setHandler with pc := .setDefault }
  | heard (at_ : s.pc = .testIgnored) : Runs s { s with pc := .testDefault }
  | setDefault (at_ : s.pc = .setDefault) : Runs s { s.installAct with pc := .testDefault }
  | default (at_ : s.pc = .testDefault) (dfl : s.act.saHandler = .dfl) :
      Runs s { s with pc := .flush }
  | caught (at_ : s.pc = .testDefault) (caught : s.act.saHandler ≠ .dfl) :
      Runs s { s with pc := .mask }
  | flush (at_ : s.pc = .flush) : Runs s { s with unwritten := false, pc := .mask }
  | mask (at_ : s.pc = .mask) : Runs s { s with blocked := State.allButAbort, pc := .kill }
  | kill (at_ : s.pc = .kill) :
      Runs s { s with pending := Function.update s.pending SIGABRT true, pc := .killed }
  | killed (at_ : s.pc = .killed) : Runs s { s with pc := .flushAgain }
  | flushAgain (at_ : s.pc = .flushAgain) :
      Runs s { s with unwritten := false, pc := .setDefaultAgain }
  | setDefaultAgain (at_ : s.pc = .setDefaultAgain) :
      Runs s { s.setHandler.installAct with pc := .maskAgain }
  | maskAgain (at_ : s.pc = .maskAgain) :
      Runs s { s with blocked := State.allButAbort, pc := .killAgain }
  | killAgain (at_ : s.pc = .killAgain) :
      Runs s { s with pending := Function.update s.pending SIGABRT true, pc := .killedAgain }
  | killedAgain (at_ : s.pc = .killedAgain) (delivered : s.delivered) :
      Runs s { s with pc := .exit }
  | exit (at_ : s.pc = .exit) : Runs s { s with ended := some (.exited 1) }

theorem runs (h : s.run = some s') : Runs s s' := by
  unfold State.run at h
  split at h
  case h_1 at_ => cases h; exact .query at_
  case h_2 at_ =>
    split at h
    · cases h; exact .ignored at_
    · cases h; exact .heard at_
  case h_3 at_ => cases h; exact .setDefault at_
  case h_4 at_ =>
    split at h
    · cases h; exact .default at_ ‹_›
    · cases h; exact .caught at_ ‹_›
  case h_5 at_ => cases h; exact .flush at_
  case h_6 at_ => cases h; exact .mask at_
  case h_7 at_ => cases h; exact .kill at_
  case h_8 at_ =>
    obtain ⟨-, h⟩ := Option.ite_none_right_eq_some.mp h
    cases h
    exact .killed at_
  case h_9 at_ => cases h; exact .flushAgain at_
  case h_10 at_ => cases h; exact .setDefaultAgain at_
  case h_11 at_ => cases h; exact .maskAgain at_
  case h_12 at_ => cases h; exact .killAgain at_
  case h_13 at_ =>
    obtain ⟨delivered, h⟩ := Option.ite_none_right_eq_some.mp h
    cases h
    exact .killedAgain at_ delivered
  case h_14 at_ => cases h; exact .exit at_

theorem Inv.run (inv : Inv s) (alive : s.ended = none) (outside : s.saved = [])
    (h : Runs s s') : Inv s' := by
  obtain ⟨mask, alone, dfl, sent, returned, asked, flush, flushed, again, exited, signalled, left,
    lost⟩ := inv
  simp only [State.own, outside, List.getLast?_nil, Option.getD_none] at mask
  cases h with
  | query at_ | ignored at_ | heard at_ | setDefault at_ | default at_ | caught at_ | flush at_
  | mask at_ | kill at_ | killed at_ | flushAgain at_ | setDefaultAgain at_ | maskAgain at_
  | killAgain at_ =>
      constructor <;> simp_all +decide [State.own, State.setHandler, State.installAct]
  | killedAgain at_ delivered =>
      -- the signal is still pending, and it is not blocked
      have open_ : s.blocked SIGABRT = false := by
        rw [mask (by rw [at_]; rfl)]
        rfl
      simp [State.delivered, sent at_ alive, open_] at delivered
  | exit at_ => exact absurd at_ returned

theorem own_push (saved : List (Nat → Bool)) (blocked inner : Nat → Bool) :
    ((blocked :: saved).getLast?).getD inner = (saved.getLast?).getD blocked := by
  cases saved <;> simp [List.getLast?_cons]

/-- What the delivery of a signal can do. -/
inductive Delivers (s : State) (signo : Nat) : State → Prop
  | gone (harmless : signo = SIGABRT → (s.disposition signo).saHandler ≠ .dfl) :
      Delivers s signo { s with pending := Function.update s.pending signo false }
  | ended (default : (s.disposition signo).saHandler = .dfl) :
      Delivers s signo { s with
        pending := Function.update s.pending signo false, ended := some (.signalled signo) }
  | caught (blocked : Nat → Bool) (disposition : Nat → Sigaction)
      (caught : (s.disposition signo).saHandler ≠ .dfl)
      (kept : ∀ g, g ≠ signo ∨ hasFlag (s.disposition signo) SA_RESETHAND = false →
        disposition g = s.disposition g) :
      Delivers s signo { s with
        pending := Function.update s.pending signo false
        disposition, saved := s.blocked :: s.saved, blocked }

theorem deliver_effect {signo : Nat} {fatal : Bool} (h : s.deliver signo fatal = some s') :
    s.pending signo = true ∧ s.blocked signo = false ∧ Delivers s signo s' := by
  obtain ⟨⟨pending, open_⟩, h⟩ := Option.ite_none_right_eq_some.mp h
  refine ⟨pending, open_, ?_⟩
  split at h
  · rename_i ignored
    cases h
    exact .gone fun _ => by rw [ignored]; nofun
  · rename_i default
    split at h
    · cases h
      exact .ended default
    · rename_i harmless
      cases h
      exact .gone fun abort => absurd (.inl abort) harmless
  · rename_i address caught
    cases h
    refine .caught _ _ (by rw [caught]; nofun) ?_
    rintro g (other | stays)
    · split
      · exact Function.update_of_ne other ..
      · rfl
    · rw [stays]
      rfl

/-- The default action of `SIGABRT`, undisturbed, comes behind the `fflush`. -/
theorem Inv.written (inv : Inv s) (masked : s.pc.masked = true) (untouched : s.touched = false)
    (stays : ¬ s.OneShot) (default : (s.disposition SIGABRT).saHandler = .dfl) :
    s.unwritten = false := by
  by_cases asked : s.pc.asked = true
  · by_cases last : s.pc = .setDefaultAgain
    · exact inv.again (.inl last)
    · apply inv.flushed
      · cases at_ : s.pc <;> simp_all +decide
      · by_contra caught
        have resets : hasFlag s.act SA_RESETHAND = false :=
          eq_false_of_ne_true fun resets => stays ⟨caught, resets⟩
        rw [inv.asked asked untouched resets] at default
        exact caught default
  · apply inv.again
    right
    cases at_ : s.pc <;> simp_all +decide

theorem Inv.deliver (inv : Inv s) (alive : s.ended = none) {signo : Nat}
    (open_ : s.blocked signo = false) (h : Delivers s signo s') : Inv s' := by
  -- behind the last `sigaction` it is `SIGABRT`, with its default action
  have last : s.pc.final = true → (s.disposition signo).saHandler = .dfl ∧ signo = SIGABRT := by
    intro final
    have abort := inv.only_abort (masked_of_final final) (inv.alone final) open_
    exact ⟨abort ▸ inv.dfl final, abort⟩
  cases h with
  | gone harmless =>
      refine { inv with sent := fun at_ _ => ?_ }
      obtain ⟨default, abort⟩ := last (by rw [show s.pc = .killedAgain from at_]; rfl)
      exact absurd default (harmless abort)
  | ended default =>
      refine { inv with
        sent := fun _ => nofun
        exited := fun _ => nofun
        signalled := ?_
        left := nofun
        lost := ?_ }
      · intro g same masked outside
        cases same
        exact inv.only_abort masked outside open_
      · intro same masked unwritten
        cases same
        by_contra undisturbed
        obtain ⟨untouched, stays⟩ := not_or.mp undisturbed
        have written := inv.written masked (eq_false_of_ne_true untouched) stays default
        exact absurd (written.symm.trans unwritten) nofun
  | caught blocked disposition caught kept =>
      have unfinal : s.pc.final = false := by
        by_contra final
        exact caught (last (eq_true_of_ne_false final)).1
      refine { inv with
        mask := fun masked => (own_push ..).trans (inv.mask masked)
        alone := fun final => absurd (unfinal.symm.trans final) nofun
        dfl := fun final => absurd (unfinal.symm.trans final) nofun
        sent := fun at_ _ => ?_
        asked := fun asked untouched stays => ?_
        signalled := fun g same => absurd (alive.symm.trans same) nofun
        left := fun same => absurd (alive.symm.trans same) nofun
        lost := fun same => absurd (alive.symm.trans same) nofun }
      · rw [show s.pc = .killedAgain from at_] at unfinal
        cases unfinal
      · have before := inv.asked asked untouched stays
        refine (kept SIGABRT ?_).trans before
        by_cases abort : SIGABRT = signo
        · right
          rw [← abort, before]
          exact stays
        · exact .inl abort

/-- What a handler can do, apart from its return. -/
theorem Inv.handle {saved : Nat → Bool} {rest : List (Nat → Bool)} (inv : Inv s)
    (alive : s.ended = none) (inside : s.saved = saved :: rest)
    (h : s.handle saved rest act = some s') : Inv s' := by
  have unfinal : s.pc.final = false := by
    by_contra final
    have outside := inv.alone (eq_true_of_ne_false final)
    rw [inside] at outside
    cases outside
  cases act with
  | sigaction signo act =>
      cases h
      refine { inv with
        dfl := fun final => absurd (unfinal.symm.trans final) nofun
        asked := fun asked untouched stays => ?_
        lost := fun same => absurd (alive.symm.trans same) nofun }
      obtain ⟨before, other⟩ : s.touched = false ∧ signo ≠ SIGABRT := by simpa using untouched
      exact (Function.update_of_ne other.symm ..).trans (inv.asked asked before stays)
  | sigprocmask blocked =>
      cases h
      refine { inv with mask := fun masked => ?_ }
      have mask := inv.mask masked
      simpa only [State.own, inside, List.getLast?_cons, Option.getD_some] using mask
  | fflush =>
      cases h
      exact { inv with
        flushed := fun _ _ => rfl
        again := fun _ => rfl
        lost := nofun }
  | leave =>
      cases h
      exact { inv with
        sent := fun _ => nofun
        exited := fun _ => nofun
        signalled := fun _ => nofun
        left := fun _ => by rw [inside]; nofun
        lost := nofun }
  | sigreturn =>
      cases h
      refine { inv with
        mask := fun masked => ?_
        alone := fun final => absurd (unfinal.symm.trans final) nofun
        signalled := fun g same => absurd (alive.symm.trans same) nofun
        left := fun same => absurd (alive.symm.trans same) nofun }
      refine (own_push rest saved s.blocked).symm.trans ?_
      rw [← inside]
      exact inv.mask masked
  | run | arrive | deliver => cases h

theorem Inv.step (inv : Inv s) (h : Step s act s') : Inv s' := by
  obtain ⟨alive, h⟩ := Option.ite_none_right_eq_some.mp h
  split at h
  · obtain ⟨outside, h⟩ := Option.ite_none_right_eq_some.mp h
    exact inv.run alive outside (runs h)
  · rename_i signo _
    cases h
    refine { inv with sent := fun at_ _ => ?_ }
    by_cases same : SIGABRT = signo
    · subst same
      exact Function.update_self SIGABRT true s.pending
    · exact (Function.update_of_ne same true s.pending).trans (inv.sent at_ alive)
  · obtain ⟨-, open_, delivery⟩ := deliver_effect h
    exact inv.deliver alive open_ delivery
  · split at h
    · exact inv.handle alive ‹_› h
    · cases h

theorem inv_init (disposition : Nat → Sigaction) (blocked pending : Nat → Bool)
    (unwritten : Bool) (act : Sigaction) :
    Inv (.init disposition blocked pending unwritten act) := by
  constructor <;> simp [State.init, Pc.masked, Pc.final, Pc.asked, Pc.flushed]

/-- The states that a call of `abort1` can come to. -/
def Called (s : State) : Prop :=
  ∃ disposition blocked pending unwritten act,
    Reachable Step (.init disposition blocked pending unwritten act) s

theorem inv_of_called (called : Called s) : Inv s := by
  obtain ⟨disposition, blocked, pending, unwritten, act, reachable⟩ := called
  exact reachable.invariant (inv_init ..) fun _ _ _ inv h => inv.step h

/-! ## The call by itself -/

/-- The instructions that are left. -/
def Pc.rank : Pc → Nat
  | .query => 14
  | .testIgnored => 13
  | .setDefault => 12
  | .testDefault => 11
  | .flush => 10
  | .mask => 9
  | .kill => 8
  | .killed => 7
  | .flushAgain => 6
  | .setDefaultAgain => 5
  | .maskAgain => 4
  | .killAgain => 3
  | .killedAgain => 2
  | .exit => 1

/-- A delivery uses up the pending signal, and each `kill` makes one. -/
def State.rank (s : State) : Nat :=
  if s.ended = none then 2 * s.pc.rank + (s.pending SIGABRT).toNat else 0

theorem State.rank_le (s : State) : s.rank ≤ 29 := by
  have pc : s.pc.rank ≤ 14 := by cases s.pc <;> decide
  have pending := Bool.toNat_le (s.pending SIGABRT)
  unfold rank
  split <;> omega

theorem rank_lt_of_runs (alive : s.ended = none) (h : Runs s s') : s'.rank < s.rank := by
  have pending := Bool.toNat_le (s.pending SIGABRT)
  cases h with
  | exit at_ =>
      rw [State.rank, State.rank, if_pos alive, if_neg nofun, at_]
      exact Nat.add_pos_left (by decide) _
  | kill at_ | killAgain at_ =>
      rw [State.rank, State.rank, if_pos alive, if_pos alive, at_]
      simp only [Pc.rank, Function.update_self, Bool.toNat_true]
      omega
  | query at_ | ignored at_ | heard at_ | setDefault at_ | default at_ | caught at_ | flush at_
  | mask at_ | killed at_ | flushAgain at_ | setDefaultAgain at_ | maskAgain at_
  | killedAgain at_ =>
      simp [State.rank, alive, at_, Pc.rank, State.setHandler, State.installAct]

theorem rank_lt_of_delivers (alive : s.ended = none) (pending : s.pending SIGABRT = true)
    (h : Delivers s SIGABRT s') : s'.rank < s.rank := by
  rw [State.rank, State.rank, if_pos alive, pending]
  cases h <;> simp [alive]

theorem ranked : Ranked Own Inv State.rank where
  keeps _ _ _ inv h := inv.step h.2
  falls s act s' inv h := by
    obtain ⟨own, h⟩ := h
    obtain ⟨alive, h⟩ := Option.ite_none_right_eq_some.mp h
    obtain rfl | ⟨fatal, rfl⟩ := own
    · obtain ⟨-, h⟩ := Option.ite_none_right_eq_some.mp h
      exact rank_lt_of_runs alive (runs h)
    · obtain ⟨pending, -, delivery⟩ := deliver_effect h
      exact rank_lt_of_delivers alive pending delivery

/-- A process that catches every signal. -/
def State.catching : State :=
  .init (fun _ => ⟨.function 0, ∅, 0⟩) (fun _ => false) (fun _ => false) true ⟨.dfl, ∅, 0⟩

/-- What was written before the call is not lost, unless a handler interferes or the one for
`SIGABRT` is there for one signal only. -/
theorem flushes (called : Called s) (masked : s.pc.masked = true)
    (ended : s.ended = some (.signalled SIGABRT)) (lost : s.unwritten = true) :
    s.touched = true ∨ s.OneShot :=
  (inv_of_called called).lost ended masked lost

/-- A process that catches every signal once. -/
def State.catchingOnce : State :=
  .init (fun _ => ⟨.function 0, ∅, SA_RESETHAND⟩) (fun _ => false) (fun _ => false) true
    ⟨.dfl, ∅, 0⟩

/-- A handler for another signal sets `SIGABRT` back to its default just in time, or the one for
`SIGABRT` has run before. -/
theorem flushes_touched :
    (∃ s, Called s ∧ s.unwritten = true ∧ (s.touched = true ∨ s.OneShot)) ∧
    ∃ s, Called s ∧ s.unwritten = true ∧ s.touched = false ∧ s.OneShot := by
  constructor
  · have run : ∃ s, Steps Step .catching
        [.run, .arrive 2, .deliver 2 true, .sigaction SIGABRT ⟨.dfl, ∅, 0⟩, .sigreturn, .run,
          .run, .run, .run, .deliver SIGABRT true] s ∧
        s.pc.masked = true ∧ s.ended = some (.signalled SIGABRT) ∧ s.unwritten = true :=
      ⟨_, Steps.of_foldlM_option rfl, rfl, rfl, rfl⟩
    obtain ⟨s, steps, masked, ended, lost⟩ := run
    have called : Called s := ⟨_, _, _, _, _, _, steps⟩
    exact ⟨s, called, lost, flushes called masked ended lost⟩
  · have run : ∃ s, Steps Step .catchingOnce
        [.run, .arrive SIGABRT, .deliver SIGABRT true, .sigreturn, .run, .run, .run, .run,
          .deliver SIGABRT true] s ∧
        s.pc.masked = true ∧ s.ended = some (.signalled SIGABRT) ∧ s.unwritten = true ∧
        s.touched = false :=
      ⟨_, Steps.of_foldlM_option rfl, rfl, rfl, rfl, rfl⟩
    obtain ⟨s, steps, masked, ended, lost, untouched⟩ := run
    have called : Called s := ⟨_, _, _, _, _, _, steps⟩
    obtain touched | oneShot := flushes called masked ended lost
    · rw [untouched] at touched
      cases touched
    · exact ⟨s, called, lost, untouched, oneShot⟩

end UnixProgramming.ProcessRelation.Abort
