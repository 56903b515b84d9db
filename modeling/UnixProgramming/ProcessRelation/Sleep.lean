import UnixProgramming.Library.Transition
import Mathlib.Logic.Function.Iterate

/-!
# `sleep1` and `sleep2` of `process_relation.c`

Both set an alarm and wait in `pause` for any signal. The handler that `sleep1` installs only
returns, that of `sleep2` jumps back behind the `pause`. A tick of the clock, or another signal
whose handler takes a while, may come between any two instructions. A handler runs with its own
signal blocked. Whether `setjmp` saves the mask, so that `longjmp` restores it, is up to the
implementation.
-/

namespace UnixProgramming.ProcessRelation.Sleep

open Transition

inductive Variant
  | sleep1
  | sleep2
  deriving DecidableEq

/-- The instruction that comes next. A process is `paused` inside of `pause`. -/
inductive Pc
  | idle
  | signal
  | setjmp
  | alarm
  | pause
  | paused
  | cancel
  | killed
  | undefined
  deriving DecidableEq

/-- `timer` is what `alarm(0)` would return. `handler` is the function that is installed for
`SIGALRM`, which is `blocked` or not, and `saved` is the mask in `env_alarm`. The last fields
record the history: if the call has set its alarm, if this has gone off, if it had when `pause`
was called, the ticks since it was set, the calls of `longjmp` and the handlers that these have
cut off. -/
structure State where
  pc : Pc
  current : Variant
  seconds : Nat
  timer : Nat
  handler : Option Variant
  frame : Bool
  blocked : Bool
  saved : Bool
  handling : Bool
  unslept : Nat
  set : Bool
  expired : Bool
  early : Bool
  elapsed : Nat
  jumps : Nat
  abandoned : Nat

inductive Action
  | call (v : Variant) (seconds : Nat)
  | callerAlarm (seconds : Nat)
  | signalFails
  | run
  | caught
  | finish
  | tick
  deriving DecidableEq

namespace State

/-- A process in which `SIGALRM` still ends the process. -/
def init : State where
  pc := .idle
  current := .sleep1
  seconds := 0
  timer := 0
  handler := none
  frame := false
  blocked := false
  saved := false
  handling := false
  unslept := 0
  set := false
  expired := false
  early := false
  elapsed := 0
  jumps := 0
  abandoned := 0

/-- `longjmp(env_alarm, 1)`. The function that has called `setjmp` must not have returned. -/
def longjmp (saves : Bool) (s : State) : State :=
  if s.frame then
    { s with
      pc := .cancel
      handling := false
      blocked := if saves then s.saved else true
      jumps := s.jumps + 1
      abandoned := s.abandoned + s.handling.toNat }
  else { s with pc := .undefined }

/-- `SIGALRM` comes. If it is blocked it stays pending. -/
def sigalrm (saves : Bool) (s : State) : State :=
  if s.blocked then s
  else
    match s.handler with
    | none => { s with pc := .killed }
    -- alarm_sig_handler2
    | some .sleep1 =>
        if s.pc = .paused ∧ s.handling = false then { s with pc := .cancel } else s
    -- alarm_sig_handler3
    | some .sleep2 => s.longjmp saves

def tick (saves : Bool) (s : State) : State :=
  match s.timer with
  | 0 => { s with elapsed := s.elapsed + 1 }
  | 1 => { s with timer := 0, elapsed := s.elapsed + 1, expired := true }.sigalrm saves
  | n + 2 => { s with timer := n + 1, elapsed := s.elapsed + 1 }

/-- The next instruction. -/
def run (s : State) : Option State :=
  match s.pc with
  | .signal =>
      some { s with
        handler := some s.current
        pc := match s.current with
          | .sleep1 => .alarm
          | .sleep2 => .setjmp }
  | .setjmp => some { s with frame := true, saved := s.blocked, pc := .alarm }
  | .alarm =>
      some { s with
        timer := s.seconds, elapsed := 0, set := true, expired := false, pc := .pause }
  | .pause => some { s with early := s.expired, pc := .paused }
  | .cancel => some { s with unslept := s.timer, timer := 0, frame := false, pc := .idle }
  | .idle | .paused | .killed | .undefined => none

def ended (s : State) : Bool := s.pc = .killed || s.pc = .undefined

def step (saves : Bool) (s : State) : Action → Option State
  | .call v seconds =>
      if s.pc = .idle ∧ s.handling = false then
        some { s with pc := .signal, current := v, seconds := seconds, set := false }
      else none
  | .callerAlarm seconds =>
      if s.pc = .idle ∧ s.handling = false then some { s with timer := seconds } else none
  | .signalFails =>
      if s.pc = .signal ∧ s.handling = false then
        some { s with pc := .idle, unslept := s.seconds }
      else none
  | .run => if s.handling = false then s.run else none
  | .caught =>
      if s.handling = false ∧ s.ended = false then some { s with handling := true } else none
  | .finish =>
      if s.handling = true ∧ s.ended = false then
        some { s with handling := false, pc := if s.pc = .paused then .cancel else s.pc }
      else none
  | .tick => if s.ended = false then some (s.tick saves) else none

end State

def Step (saves : Bool) (s : State) (act : Action) (s' : State) : Prop :=
  s.step saves act = some s'

/-! ## One step -/

/-- The handler of the call is installed. -/
def Pc.inside : Pc → Bool
  | .setjmp | .alarm | .pause | .paused | .cancel => true
  | .idle | .signal | .killed | .undefined => false

/-- The alarm of the call is set. -/
def Pc.armed : Pc → Bool
  | .pause | .paused | .cancel => true
  | .idle | .signal | .setjmp | .alarm | .killed | .undefined => false

/-- What one `SIGALRM` can do. -/
inductive Alarmed (saves : Bool) (s : State) : State → Prop
  | pending (blocked : s.blocked = true) : Alarmed saves s s
  | killed (open_ : s.blocked = false) (default : s.handler = none) :
      Alarmed saves s { s with pc := .killed }
  | woken (open_ : s.blocked = false) (handler : s.handler = some .sleep1)
      (paused : s.pc = .paused) (free : s.handling = false) :
      Alarmed saves s { s with pc := .cancel }
  | returns (open_ : s.blocked = false) (handler : s.handler = some .sleep1)
      (busy : s.pc = .paused → s.handling = true) : Alarmed saves s s
  | jumped (open_ : s.blocked = false) (handler : s.handler = some .sleep2)
      (frame : s.frame = true) : Alarmed saves s (s.longjmp saves)
  | undefined (open_ : s.blocked = false) (handler : s.handler = some .sleep2)
      (frame : s.frame = false) : Alarmed saves s { s with pc := .undefined }

theorem alarmed (saves : Bool) (s : State) : Alarmed saves s (s.sigalrm saves) := by
  by_cases blocked : s.blocked = true
  · rw [State.sigalrm, if_pos blocked]
    exact .pending blocked
  · have open_ : s.blocked = false := eq_false_of_ne_true blocked
    rw [State.sigalrm, if_neg blocked]
    split
    · exact .killed open_ ‹_›
    · split
      · rename_i paused
        exact .woken open_ ‹_› paused.1 paused.2
      · rename_i awake
        refine .returns open_ ‹_› fun at_ => ?_
        simpa [at_] using awake
    · by_cases frame : s.frame = true
      · exact .jumped open_ ‹_› frame
      · rw [State.longjmp, if_neg frame]
        exact .undefined open_ ‹_› (eq_false_of_ne_true frame)

/-- What holds also between the alarm going off and its `SIGALRM`. -/
structure Base (saves : Bool) (s : State) : Prop where
  mask : s.blocked = true ↔ saves = false ∧ 0 < s.jumps
  saved : saves = true → s.saved = false
  handler : s.pc.inside = true → s.handler = some s.current
  path : s.pc = .setjmp → s.current = .sleep2
  frame : s.frame = true ↔ s.current = .sleep2 ∧ (s.pc = .alarm ∨ s.pc.armed = true)
  set : s.pc = .pause ∨ s.pc = .paused → s.set = true
  unset : s.pc = .signal ∨ s.pc = .setjmp ∨ s.pc = .alarm → s.set = false
  timer : s.pc.armed = true → s.timer = if s.set then s.seconds - s.elapsed else 0
  expired : s.set = true → s.pc.armed = true → (s.expired = true ↔ s.seconds ≠ 0 ∧ s.timer = 0)
  early : s.pc = .paused → s.early = true → s.expired = true

/-- What holds at any point. An alarm of `sleep2` that has gone off has led out of the `pause`,
and one of `sleep1` has unless it came too early. -/
structure Inv (saves : Bool) (s : State) : Prop extends Base saves s where
  jumped : s.pc = .pause ∨ s.pc = .paused → s.current = .sleep2 → s.blocked = false →
    s.expired = false
  before : s.pc = .paused → s.current = .sleep1 → s.blocked = false → s.handling = false →
    s.expired = s.early

variable {saves : Bool} {s t s' : State} {act : Action}

/-! ## The invariant -/

theorem inside_of_armed {pc : Pc} (armed : pc.armed = true) : pc.inside = true := by
  cases pc <;> first | rfl | cases armed

namespace Base

/-- A function that has called `setjmp` has installed its handler before. -/
theorem installed (base : Base saves s) (frame : s.frame = true) :
    s.handler = some .sleep2 := by
  obtain ⟨current, at_⟩ := base.frame.mp frame
  rw [← current]
  apply base.handler
  obtain alarm | armed := at_
  · rw [alarm]
    rfl
  · exact inside_of_armed armed

/-- The process has ended. -/
theorem gone {pc : Pc} (base : Base saves s) (frame : s.frame = false)
    (ended : pc = .killed ∨ pc = .undefined) : Inv saves { s with pc := pc } := by
  have mask := base.mask
  have saved := base.saved
  obtain rfl | rfl := ended
  · constructor
    · constructor <;> simp_all [Pc.inside, Pc.armed]
    · simp
    · simp
  · constructor
    · constructor <;> simp_all [Pc.inside, Pc.armed]
    · simp
    · simp

/-- The process is behind the `pause`. -/
theorem cancelled (base : Base saves s) (due : s.pc = .alarm → s.timer = 0)
    (inside : s.pc = .alarm ∨ s.pc.armed = true) : Inv saves { s with pc := .cancel } := by
  have installed : s.handler = some s.current := by
    apply base.handler
    obtain alarm | armed := inside
    · rw [alarm]
      rfl
    · exact inside_of_armed armed
  constructor
  · constructor
    case mask => exact base.mask
    case saved => exact base.saved
    case handler => exact fun _ => installed
    case path => exact nofun
    case frame =>
      rw [base.frame]
      exact and_congr_right fun _ => ⟨fun _ => .inr rfl, fun _ => inside⟩
    case set => exact nofun
    case unset => exact nofun
    case timer =>
      intro _
      obtain alarm | armed := inside
      · have unset := base.unset (.inr (.inr alarm))
        simp [unset, due alarm]
      · exact base.timer armed
    case expired =>
      intro set _
      obtain alarm | armed := inside
      · exact absurd ((base.unset (.inr (.inr alarm))).symm.trans set) nofun
      · exact base.expired set armed
    case early => exact nofun
  · exact nofun
  · exact nofun

/-- The mask behind a `longjmp`. -/
theorem jumped (base : Base saves s) :
    Base saves { s with
      handling := false
      blocked := if saves then s.saved else true
      jumps := s.jumps + 1
      abandoned := s.abandoned + s.handling.toNat } where
  mask := by
    cases saves with
    | true => simpa using base.saved rfl
    | false => simp
  saved := base.saved
  handler := base.handler
  path := base.path
  frame := base.frame
  set := base.set
  unset := base.unset
  timer := base.timer
  expired := base.expired
  early := base.early

theorem alarmed (base : Base saves s) (due : s.timer = 0) (h : Alarmed saves s t) :
    Inv saves t := by
  cases h with
  | pending blocked => exact ⟨base, by simp [blocked], by simp [blocked]⟩
  | killed open_ default =>
      refine base.gone ?_ (.inl rfl)
      by_contra frame
      have handler := base.installed (eq_true_of_ne_false frame)
      rw [default] at handler
      cases handler
  | woken open_ handler paused free =>
      refine base.cancelled (fun _ => due) (.inr ?_)
      rw [paused]
      rfl
  | returns open_ handler busy =>
      refine ⟨base, fun at_ current _ => ?_, fun paused _ _ free => ?_⟩
      · have installed : s.handler = some s.current := by
          obtain at_ | at_ := at_ <;> exact base.handler (at_ ▸ rfl)
        rw [handler, current] at installed
        cases installed
      · exact absurd ((busy paused).symm.trans free) nofun
  | jumped open_ handler framed =>
      rw [State.longjmp, if_pos framed]
      exact base.jumped.cancelled (fun _ => due) (base.frame.mp framed).2
  | undefined open_ handler framed => exact base.gone framed (.inr rfl)

/-- A tick of the clock up to the `SIGALRM`. -/
theorem ticked (base : Base saves s) (timer : Nat) (expired : Bool)
    (left : timer = s.timer - 1) (off : expired = true ↔ s.expired = true ∨ s.timer = 1) :
    Base saves { s with timer := timer, elapsed := s.elapsed + 1, expired := expired } where
  mask := base.mask
  saved := base.saved
  handler := base.handler
  path := base.path
  frame := base.frame
  set := base.set
  unset := base.unset
  timer armed := by
    have old := base.timer armed
    show timer = if s.set then s.seconds - (s.elapsed + 1) else 0
    rw [left, old]
    split
    · exact Nat.sub_sub s.seconds s.elapsed 1
    · rfl
  expired set armed := by
    have old := base.expired set armed
    have clock := base.timer armed
    rw [if_pos set] at clock
    show expired = true ↔ s.seconds ≠ 0 ∧ timer = 0
    rw [off, old, left]
    omega
  early paused early := off.mpr (.inl (base.early paused early))

end Base

namespace Inv

theorem init (saves : Bool) : Inv saves .init := by
  constructor
  · constructor <;> simp [State.init, Pc.inside, Pc.armed]
  · simp [State.init]
  · simp [State.init]

theorem tick (inv : Inv saves s) : Inv saves (s.tick saves) := by
  unfold State.tick
  split
  · rename_i off
    have base := inv.toBase.ticked 0 s.expired (by omega) (by simp [off])
    rw [← off] at base
    exact ⟨base, inv.jumped, inv.before⟩
  · rename_i last
    exact (inv.toBase.ticked 0 true (by omega) (by simp [last])).alarmed rfl (alarmed saves _)
  · rename_i n more
    exact ⟨inv.toBase.ticked (n + 1) s.expired (by omega) (by simp [more]), inv.jumped, inv.before⟩

/-- The next instruction of the call. -/
theorem run (inv : Inv saves s) (free : s.handling = false) (h : s.run = some t) :
    Inv saves t := by
  have mask := inv.mask
  have saved := inv.saved
  have handler := inv.handler
  have frame := inv.frame
  have unset := inv.unset
  cases at_ : s.pc with
  | signal =>
      simp only [State.run, at_, Option.some.injEq] at h
      subst h
      cases current : s.current <;> constructor
      all_goals first | (constructor <;> simp_all [Pc.inside, Pc.armed]) | simp_all
  | setjmp =>
      simp only [State.run, at_, Option.some.injEq] at h
      subst h
      have current := inv.path at_
      have open_ : saves = true → s.blocked = false := by
        rintro rfl
        simpa using mask
      constructor
      · constructor <;> simp_all [Pc.inside, Pc.armed]
      · simp
      · simp
  | alarm =>
      simp only [State.run, at_, Option.some.injEq] at h
      subst h
      constructor
      · constructor <;> simp_all [Pc.inside, Pc.armed]
      · simp
      · simp
  | pause =>
      have set := inv.set
      have timer := inv.timer
      have expired := inv.expired
      have jumped := inv.jumped
      simp only [State.run, at_, Option.some.injEq] at h
      subst h
      constructor
      · constructor <;> simp_all [Pc.inside, Pc.armed]
      · simp_all
      · simp
  | cancel =>
      simp only [State.run, at_, Option.some.injEq] at h
      subst h
      constructor
      · constructor <;> simp_all [Pc.inside, Pc.armed]
      · simp
      · simp
  | idle | paused | killed | undefined => simp [State.run, at_] at h

theorem step (inv : Inv saves s) (h : Step saves s act s') : Inv saves s' := by
  have mask := inv.mask
  have saved := inv.saved
  have frame := inv.frame
  cases act with
  | call v seconds =>
      obtain ⟨⟨at_, -⟩, h⟩ := Option.ite_none_right_eq_some.mp h
      cases h
      constructor
      · constructor <;> simp_all [Pc.inside, Pc.armed]
      · simp
      · simp
  | callerAlarm seconds =>
      obtain ⟨⟨at_, -⟩, h⟩ := Option.ite_none_right_eq_some.mp h
      cases h
      constructor
      · constructor <;> simp_all [Pc.inside, Pc.armed]
      · simp [at_]
      · simp [at_]
  | signalFails =>
      obtain ⟨⟨at_, -⟩, h⟩ := Option.ite_none_right_eq_some.mp h
      cases h
      constructor
      · constructor <;> simp_all [Pc.inside, Pc.armed]
      · simp
      · simp
  | run =>
      obtain ⟨free, h⟩ := Option.ite_none_right_eq_some.mp h
      exact inv.run free h
  | caught =>
      obtain ⟨⟨free, -⟩, h⟩ := Option.ite_none_right_eq_some.mp h
      cases h
      exact ⟨⟨inv.mask, inv.saved, inv.handler, inv.path, inv.frame, inv.set, inv.unset, inv.timer,
        inv.expired, inv.early⟩, inv.jumped, nofun⟩
  | finish =>
      obtain ⟨-, h⟩ := Option.ite_none_right_eq_some.mp h
      cases h
      have base : Base saves { s with handling := false } :=
        ⟨inv.mask, inv.saved, inv.handler, inv.path, inv.frame, inv.set, inv.unset, inv.timer,
          inv.expired, inv.early⟩
      by_cases paused : s.pc = .paused
      · have armed : s.pc.armed = true := by
          rw [paused]
          rfl
        have notAlarm : s.pc = .alarm → s.timer = 0 := fun alarm =>
          absurd (paused.symm.trans alarm) nofun
        rw [if_pos paused]
        exact base.cancelled notAlarm (.inr armed)
      · rw [if_neg paused]
        exact ⟨base, inv.jumped, fun at_ => absurd at_ paused⟩
  | tick =>
      obtain ⟨-, h⟩ := Option.ite_none_right_eq_some.mp h
      cases h
      exact inv.tick

end Inv

theorem inv_of_reachable (h : Reachable (Step saves) .init s) : Inv saves s :=
  h.invariant (.init saves) fun _ _ _ inv hstep => inv.step hstep

/-! ## What the clock can do for a process in `pause` -/

/-- Neither the alarm nor its `SIGALRM` will come. -/
structure Stuck (s : State) : Prop where
  paused : s.pc = .paused
  quiet : s.blocked = true ∨ s.timer = 0

theorem Stuck.tick (stuck : Stuck s) : Stuck (s.tick saves) := by
  obtain ⟨paused, quiet⟩ := stuck
  unfold State.tick
  split
  · rename_i off
    exact ⟨paused, .inr off⟩
  · rename_i last
    have blocked : s.blocked = true := quiet.resolve_right (by omega)
    rw [State.sigalrm, if_pos blocked]
    exact ⟨paused, .inl blocked⟩
  · rename_i n more
    exact ⟨paused, .inl (quiet.resolve_right (by omega))⟩

theorem Stuck.ticks (stuck : Stuck s) (n : Nat) : Stuck ((State.tick saves)^[n] s) := by
  induction n generalizing s with
  | zero => exact stuck
  | succ n ih => exact ih stuck.tick

/-- The `SIGALRM` that ends the `pause`. -/
theorem Inv.tick_wakes (inv : Inv saves s) (paused : s.pc = .paused) (free : s.handling = false)
    (open_ : s.blocked = false) (last : s.timer = 1) : (s.tick saves).pc = .cancel := by
  have handler := inv.handler (by rw [paused]; rfl)
  have notBlocked : ¬ s.blocked = true := by simp [open_]
  cases current : s.current with
  | sleep1 =>
      rw [current] at handler
      simp only [State.tick, last, State.sigalrm, open_, handler, paused, free]
      rfl
  | sleep2 =>
      rw [current] at handler
      have frame : s.frame = true := inv.frame.mpr ⟨current, .inr (by rw [paused]; rfl)⟩
      simp only [State.tick, last, State.sigalrm, open_, handler, State.longjmp, frame]
      rfl

theorem Inv.ticks_wake {n : Nat} (inv : Inv saves s) (paused : s.pc = .paused)
    (free : s.handling = false) (open_ : s.blocked = false) (left : s.timer = n + 1) :
    ((State.tick saves)^[n + 1] s).pc = .cancel := by
  induction n generalizing s with
  | zero => exact inv.tick_wakes paused free open_ left
  | succ n ih =>
      have tick : s.tick saves = { s with timer := n + 1, elapsed := s.elapsed + 1 } := by
        simp only [State.tick, left]
      rw [Function.iterate_succ_apply]
      apply ih inv.tick
      · rw [tick, paused]
      · rw [tick, free]
      · rw [tick, open_]
      · rw [tick]

/-- In any sequence of calls, with ticks and other signals between any two instructions: a
process in `pause` will be woken by the clock if and only if its call is not for 0 seconds, no
earlier alarm of `sleep2` has left `SIGALRM` blocked, and, in `sleep1`, its alarm has not gone
off before it called `pause`. -/
theorem wakes_iff (h : Reachable (Step saves) .init s) (paused : s.pc = .paused)
    (free : s.handling = false) :
    (∃ n, ((State.tick saves)^[n] s).pc ≠ .paused) ↔
      s.seconds ≠ 0 ∧ (saves = true ∨ s.jumps = 0) ∧ (s.current = .sleep1 → s.early = false) := by
  have inv := inv_of_reachable h
  have armed : s.pc.armed = true := by
    rw [paused]
    rfl
  have set := inv.set (.inr paused)
  have timer := inv.timer armed
  have expired := inv.expired set armed
  rw [if_pos set] at timer
  constructor
  · rintro ⟨n, woken⟩
    have live : ¬ (s.blocked = true ∨ s.timer = 0) := fun quiet =>
      woken (Stuck.ticks ⟨paused, quiet⟩ n).paused
    obtain ⟨open_, left⟩ := not_or.mp live
    refine ⟨by omega, ?_, fun current => ?_⟩
    · rw [inv.mask] at open_
      cases saves with
      | true => exact .inl rfl
      | false => simpa using open_
    · rw [← inv.before paused current (eq_false_of_ne_true open_) free]
      simpa [left] using expired
  · rintro ⟨seconds, unblocked, onTime⟩
    have open_ : s.blocked = false := by
      apply eq_false_of_ne_true
      rw [inv.mask]
      rintro ⟨rfl, jumps⟩
      simp at unblocked
      omega
    have pending : s.expired = false := by
      cases current : s.current with
      | sleep1 => rw [inv.before paused current open_ free, onTime current]
      | sleep2 => exact inv.jumped (.inr paused) current open_
    have left : s.timer ≠ 0 := by
      intro off
      have gone := expired.mpr ⟨seconds, off⟩
      rw [pending] at gone
      cases gone
    obtain ⟨n, more⟩ := Nat.exists_eq_succ_of_ne_zero left
    refine ⟨n + 1, ?_⟩
    rw [inv.ticks_wake paused free open_ more]
    exact nofun

/-- The alarm of `sleep1` goes off before `pause`. A second `sleep2` waits for a `SIGALRM` that
the first one has left blocked. -/
theorem wakes_iff_stuck :
    (∃ s, Reachable (Step true) .init s ∧ s.current = .sleep1 ∧ s.seconds = 2 ∧
      ¬ ∃ n, ((State.tick true)^[n] s).pc ≠ .paused) ∧
    ∃ s, Reachable (Step false) .init s ∧ s.current = .sleep2 ∧ s.seconds = 1 ∧
      ¬ ∃ n, ((State.tick false)^[n] s).pc ≠ .paused := by
  have early : ∃ s, Steps (Step true) .init
      [.call .sleep1 2, .run, .run, .tick, .tick, .run] s ∧ s.pc = .paused ∧
      s.handling = false ∧ s.current = .sleep1 ∧ s.seconds = 2 ∧ s.early = true :=
    ⟨_, Steps.of_foldlM_option rfl, rfl, rfl, rfl, rfl, rfl⟩
  have twice : ∃ s, Steps (Step false) .init
      [.call .sleep2 1, .run, .run, .run, .run, .tick, .run,
        .call .sleep2 1, .run, .run, .run, .run] s ∧ s.pc = .paused ∧
      s.handling = false ∧ s.current = .sleep2 ∧ s.seconds = 1 ∧ s.jumps = 1 :=
    ⟨_, Steps.of_foldlM_option rfl, rfl, rfl, rfl, rfl, rfl⟩
  obtain ⟨s, steps, paused, free, current, seconds, early⟩ := early
  obtain ⟨t, steps', paused', free', current', seconds', jumps⟩ := twice
  refine ⟨⟨s, ⟨_, steps⟩, current, seconds, ?_⟩, ⟨t, ⟨_, steps'⟩, current', seconds', ?_⟩⟩
  · rw [wakes_iff ⟨_, steps⟩ paused free]
    simp [current, early]
  · rw [wakes_iff ⟨_, steps'⟩ paused' free']
    simp [jumps]

/-! ## Callers without an alarm of their own -/

/-- The caller does not use the alarm. -/
def NoCallerAlarm (_ : State) : Action → Prop
  | .callerAlarm _ => False
  | _ => True

instance : ∀ s act, Decidable (NoCallerAlarm s act)
  | _, .callerAlarm _ => inferInstanceAs (Decidable False)
  | _, .call _ _ | _, .signalFails | _, .run | _, .caught | _, .finish | _, .tick =>
      inferInstanceAs (Decidable True)

/-- The timer runs only while a call waits for it. -/
structure Own (saves : Bool) (s : State) : Prop extends Inv saves s where
  live : s.ended = false
  off : s.pc.armed = false → s.timer = 0
  own : s.pc = .cancel → s.set = true

namespace Own

theorem init (saves : Bool) : Own saves .init :=
  ⟨.init saves, rfl, fun _ => rfl, nofun⟩

theorem set_of_armed (own : Own saves s) (armed : s.pc.armed = true) : s.set = true := by
  cases at_ : s.pc with
  | pause => exact own.set (.inl at_)
  | paused => exact own.set (.inr at_)
  | cancel => exact own.own at_
  | idle | signal | setjmp | alarm | killed | undefined =>
      rw [at_] at armed
      cases armed

/-- The alarm of a call finds the handler of the call. -/
theorem alarmed (h : Alarmed saves s t) (live : s.ended = false) (set : s.set = true)
    (installed : s.handler = some s.current) (frame : s.current = .sleep2 → s.frame = true) :
    t.ended = false ∧ t.timer = s.timer ∧ t.set = true := by
  cases h with
  | pending blocked => exact ⟨live, rfl, set⟩
  | killed open_ default => exact absurd (default.symm.trans installed) nofun
  | woken open_ handler paused free => exact ⟨rfl, rfl, set⟩
  | returns open_ handler busy => exact ⟨live, rfl, set⟩
  | jumped open_ handler framed =>
      rw [State.longjmp, if_pos framed]
      exact ⟨rfl, rfl, set⟩
  | undefined open_ handler noFrame =>
      have current : s.current = .sleep2 := Option.some.inj (installed.symm.trans handler)
      exact absurd (noFrame.symm.trans (frame current)) nofun

theorem tick (own : Own saves s) : Own saves (s.tick saves) := by
  have inv := own.toInv.tick
  unfold State.tick at inv ⊢
  split at inv
  · exact ⟨inv, own.live, own.off, own.own⟩
  · rename_i last
    have armed : s.pc.armed = true := by
      by_contra disarmed
      have := own.off (eq_false_of_ne_true disarmed)
      omega
    have effect := Sleep.alarmed saves
      { s with timer := 0, elapsed := s.elapsed + 1, expired := true }
    obtain ⟨live, off, set⟩ := alarmed effect own.live (own.set_of_armed armed)
      (own.handler (inside_of_armed armed)) fun current => own.frame.mpr ⟨current, .inr armed⟩
    exact ⟨inv, live, fun _ => off, fun _ => set⟩
  · rename_i n more
    refine ⟨inv, own.live, fun disarmed => ?_, own.own⟩
    have := own.off disarmed
    omega

theorem run (own : Own saves s) (inv : Inv saves t) (h : s.run = some t) : Own saves t := by
  have off := own.off
  cases at_ : s.pc with
  | signal =>
      simp only [State.run, at_, Option.some.injEq] at h
      subst h
      refine ⟨inv, ?_, fun _ => off (by rw [at_]; rfl), ?_⟩
      · cases current : s.current <;> rfl
      · cases current : s.current <;> exact nofun
  | setjmp =>
      simp only [State.run, at_, Option.some.injEq] at h
      subst h
      exact ⟨inv, rfl, by simp [off, at_, Pc.armed], nofun⟩
  | alarm =>
      simp only [State.run, at_, Option.some.injEq] at h
      subst h
      exact ⟨inv, rfl, nofun, nofun⟩
  | pause =>
      simp only [State.run, at_, Option.some.injEq] at h
      subst h
      exact ⟨inv, rfl, nofun, nofun⟩
  | cancel =>
      simp only [State.run, at_, Option.some.injEq] at h
      subst h
      exact ⟨inv, rfl, fun _ => rfl, nofun⟩
  | idle | paused | killed | undefined => simp [State.run, at_] at h

theorem step (own : Own saves s) (allowed : NoCallerAlarm s act) (h : Step saves s act s') :
    Own saves s' := by
  have inv := own.toInv.step h
  cases act with
  | call v seconds =>
      obtain ⟨⟨at_, -⟩, h⟩ := Option.ite_none_right_eq_some.mp h
      cases h
      exact ⟨inv, rfl, fun _ => own.off (by rw [at_]; rfl), nofun⟩
  | callerAlarm seconds => exact allowed.elim
  | signalFails =>
      obtain ⟨⟨at_, -⟩, h⟩ := Option.ite_none_right_eq_some.mp h
      cases h
      exact ⟨inv, rfl, fun _ => own.off (by rw [at_]; rfl), nofun⟩
  | run =>
      obtain ⟨-, h⟩ := Option.ite_none_right_eq_some.mp h
      exact own.run inv h
  | caught =>
      obtain ⟨-, h⟩ := Option.ite_none_right_eq_some.mp h
      cases h
      exact ⟨inv, own.live, own.off, own.own⟩
  | finish =>
      obtain ⟨-, h⟩ := Option.ite_none_right_eq_some.mp h
      cases h
      by_cases paused : s.pc = .paused
      · have set := own.set (.inr paused)
        simp only [if_pos paused] at inv ⊢
        exact ⟨inv, rfl, nofun, fun _ => set⟩
      · simp only [if_neg paused] at inv ⊢
        exact ⟨inv, own.live, own.off, own.own⟩
  | tick =>
      obtain ⟨-, h⟩ := Option.ite_none_right_eq_some.mp h
      cases h
      exact own.tick

end Own

/-- If the caller uses no alarm of its own, no `SIGALRM` ends the process or jumps into a function
that has returned, and each call returns the seconds that were left at its `alarm(0)`. No alarm
is left behind. -/
theorem unslept_eq (h : Reachable (Guarded NoCallerAlarm (Step saves)) .init s) :
    s.pc ≠ .killed ∧ s.pc ≠ .undefined ∧
    ∀ s', s.pc = .cancel → Step saves s .run s' →
      s'.unslept = s.seconds - s.elapsed ∧ s'.timer = 0 := by
  have own : Own saves s := h.invariant (.init saves)
    fun _ _ _ own hstep => own.step hstep.1 hstep.2
  have live := own.live
  rw [State.ended, Bool.or_eq_false_iff] at live
  refine ⟨of_decide_eq_false live.1, of_decide_eq_false live.2, ?_⟩
  intro s' at_ hstep
  have timer := own.timer (by rw [at_]; rfl)
  rw [if_pos (own.own at_)] at timer
  obtain ⟨-, hrun⟩ := Option.ite_none_right_eq_some.mp hstep
  simp only [State.run, at_, Option.some.injEq] at hrun
  subst hrun
  exact ⟨timer, rfl⟩

/-- Another signal ends a `sleep2` of five seconds after two of them. An alarm of the caller that
goes off behind it jumps into the function that has returned. -/
theorem unslept_eq_three :
    (∃ s, Reachable (Guarded NoCallerAlarm (Step true)) .init s ∧ s.pc = .cancel ∧
      ∀ s', Step true s .run s' → s'.unslept = 3) ∧
    ∃ s, Reachable (Step true) .init s ∧ s.pc = .undefined := by
  have woken : ∃ s, Steps (Guarded NoCallerAlarm (Step true)) .init
      [.call .sleep2 5, .run, .run, .run, .tick, .run, .tick, .caught, .finish] s ∧
      s.pc = .cancel ∧ s.seconds = 5 ∧ s.elapsed = 2 :=
    ⟨_, Steps.of_foldlM_guarded rfl, rfl, rfl, rfl⟩
  have later : ∃ s, Steps (Step true) .init
      [.call .sleep2 5, .run, .run, .run, .run, .caught, .finish, .run, .callerAlarm 1, .tick] s ∧
      s.pc = .undefined :=
    ⟨_, Steps.of_foldlM_option rfl, rfl⟩
  obtain ⟨s, steps, at_, seconds, elapsed⟩ := woken
  obtain ⟨t, steps', undefined⟩ := later
  refine ⟨⟨s, ⟨_, steps⟩, at_, fun s' hstep => ?_⟩, ⟨t, ⟨_, steps'⟩, undefined⟩⟩
  rw [((unslept_eq ⟨_, steps⟩).2.2 s' at_ hstep).1, seconds, elapsed]

end UnixProgramming.ProcessRelation.Sleep
