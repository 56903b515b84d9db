import UnixProgramming.Library.Transition
import Mathlib.Logic.Function.Basic

/-!
# `term_io.c`: the modes of a terminal

`tty_cbreak` and `tty_raw` save the attributes of the terminal, change them and look
whether the change has been made. `tty_reset` and `tty_atexit` restore them. Each call of
`tcgetattr` and `tcsetattr` may fail, and a `tcsetattr` that succeeds may have made a part
of the changes only. The calls that restore the attributes behind a failure succeed.
-/

namespace UnixProgramming.TermIo

open Transition

abbrev Tcflag := BitVec 32

abbrev Errno := Nat

def EINVAL : Errno := 22

def ISIG : Tcflag := 0x1#32
def ICANON : Tcflag := 0x2#32
def ECHO : Tcflag := 0x8#32
def IEXTEN : Tcflag := 0x8000#32
def BRKINT : Tcflag := 0x2#32
def INPCK : Tcflag := 0x10#32
def ISTRIP : Tcflag := 0x20#32
def ICRNL : Tcflag := 0x100#32
def IXON : Tcflag := 0x400#32
def CSIZE : Tcflag := 0x30#32
def CS8 : Tcflag := 0x30#32
def PARENB : Tcflag := 0x100#32
def OPOST : Tcflag := 0x1#32
def VTIME : Nat := 5
def VMIN : Nat := 6

/-- `struct termios`, with the control characters by their index. -/
structure Termios where
  cIflag : Tcflag
  cOflag : Tcflag
  cCflag : Tcflag
  cLflag : Tcflag
  cCc : Nat → UInt8

/-- The part of a request that the driver carries out, as the flag bits and the characters
that it changes. -/
structure Applied where
  iflag : Tcflag
  oflag : Tcflag
  cflag : Tcflag
  lflag : Tcflag
  cc : Nat → Bool

/-- The bits of `request` where `part` is set, and those of `old` elsewhere. -/
def blend (part old request : Tcflag) : Tcflag := (old &&& ~~~part) ||| (request &&& part)

def Applied.apply (part : Applied) (old request : Termios) : Termios where
  cIflag := blend part.iflag old.cIflag request.cIflag
  cOflag := blend part.oflag old.cOflag request.cOflag
  cCflag := blend part.cflag old.cCflag request.cCflag
  cLflag := blend part.lflag old.cLflag request.cLflag
  cCc := fun i => if part.cc i then request.cCc i else old.cCc i

inductive TtyState
  | reset
  | raw
  | cbreak
  deriving DecidableEq

/-- The terminals by descriptor, and the static variables of the source. -/
structure State where
  tty : Int → Termios
  ttystate : TtyState
  ttysavefd : Int
  saveTermios : Termios
  errno : Errno

/-- How the calls of `tcgetattr`, `tcsetattr` and `tcgetattr` in a mode function end. -/
structure Outcomes where
  get : Option Errno
  set : Except Errno Applied
  confirm : Option Errno

namespace State

def init (tty : Int → Termios) (saveTermios : Termios) : State :=
  ⟨tty, .reset, -1, saveTermios, 0⟩

def setTty (s : State) (fd : Int) (attrs : Termios) : State :=
  { s with tty := Function.update s.tty fd attrs }

/-- `tcsetattr(fd, TCSAFLUSH, &save_termios)`. -/
def restore (s : State) (fd : Int) : State := s.setTty fd s.saveTermios

/-- What `tty_cbreak` and `tty_raw` share. They differ in the attributes they ask for, the
test behind the change and the mode. -/
def enter (mode : TtyState) (request : Termios → Termios) (partly : Termios → Bool) (fd : Int)
    (o : Outcomes) (s : State) : Int × State :=
  if s.ttystate ≠ .reset then (-1, { s with errno := EINVAL })
  else
    match o.get with
    | some e => (-1, { s with errno := e })
    | none =>
        let s := { s with saveTermios := s.tty fd }
        match o.set with
        | .error e => (-1, { s with errno := e })
        | .ok part =>
            let s := s.setTty fd (part.apply (s.tty fd) (request (s.tty fd)))
            match o.confirm with
            | some e => (-1, { s.restore fd with errno := e })
            | none =>
                -- only some of the changes were made
                if partly (s.tty fd) = true then (-1, { s.restore fd with errno := EINVAL })
                else (0, { s with ttystate := mode, ttysavefd := fd })

end State

/-- `buf.c_cc[VMIN] = 1; buf.c_cc[VTIME] = 0;` -/
def oneByte (cc : Nat → UInt8) : Nat → UInt8 :=
  Function.update (Function.update cc VMIN 1) VTIME 0

def cbreakRequest (t : Termios) : Termios :=
  { t with cLflag := t.cLflag &&& ~~~(ECHO ||| ICANON), cCc := oneByte t.cCc }

def cbreakPartly (t : Termios) : Bool :=
  t.cLflag &&& (ECHO ||| ICANON) != 0 || t.cCc VMIN != 1 || t.cCc VTIME != 0

def rawRequest (t : Termios) : Termios where
  cLflag := t.cLflag &&& ~~~(ECHO ||| ICANON ||| IEXTEN ||| ISIG)
  cIflag := t.cIflag &&& ~~~(BRKINT ||| ICRNL ||| INPCK ||| ISTRIP ||| IXON)
  cCflag := t.cCflag &&& ~~~(CSIZE ||| PARENB) ||| CS8
  cOflag := t.cOflag &&& ~~~OPOST
  cCc := oneByte t.cCc

def rawPartly (t : Termios) : Bool :=
  t.cLflag &&& (ECHO ||| ICANON ||| IEXTEN ||| ISIG) != 0 ||
    t.cIflag &&& (BRKINT ||| ICRNL ||| INPCK ||| ISTRIP ||| IXON) != 0 ||
    t.cCflag &&& (CSIZE ||| PARENB ||| CS8) != CS8 || t.cOflag &&& OPOST != 0 ||
    (t.cCc VMIN != 1 || t.cCc VTIME != 0)

namespace State

def ttyCbreak : Int → Outcomes → State → Int × State := enter .cbreak cbreakRequest cbreakPartly

def ttyRaw : Int → Outcomes → State → Int × State := enter .raw rawRequest rawPartly

/-- `failed` is the error of `tcsetattr`, if it fails. -/
def ttyReset (fd : Int) (failed : Option Errno) (s : State) : Int × State :=
  if s.ttystate = .reset then (0, s)
  else
    match failed with
    | some e => (-1, { s with errno := e })
    | none => (0, { s.restore fd with ttystate := .reset })

def ttyAtexit (failed : Option Errno) (s : State) : State :=
  if 0 ≤ s.ttysavefd then (s.ttyReset s.ttysavefd failed).2 else s

end State

/-- A call for the terminal `fd`, with the outcomes of its system calls. -/
inductive Call
  | ttyCbreak (o : Outcomes)
  | ttyRaw (o : Outcomes)
  | ttyReset (failed : Option Errno)
  | ttyAtexit (failed : Option Errno)

/-- The value of a call, where it has one, and the state behind it. -/
def State.call (s : State) (fd : Int) : Call → Option Int × State
  | .ttyCbreak o => ((s.ttyCbreak fd o).1, (s.ttyCbreak fd o).2)
  | .ttyRaw o => ((s.ttyRaw fd o).1, (s.ttyRaw fd o).2)
  | .ttyReset failed => ((s.ttyReset fd failed).1, (s.ttyReset fd failed).2)
  | .ttyAtexit failed => (none, s.ttyAtexit failed)

def Step (fd : Int) (s : State) (c : Call) (s' : State) : Prop := (s.call fd c).2 = s'

/-- How a mode function ends: it changes nothing, it saves the attributes and leaves them as
they are, or it enters the mode with attributes that pass its test. -/
inductive EnterSpec (mode : TtyState) (partly : Termios → Bool) (fd : Int) (s : State) :
    Int × State → Prop
  | refused (e : Errno) : EnterSpec mode partly fd s (-1, { s with errno := e })
  | failed (e : Errno) (start : s.ttystate = .reset) :
      EnterSpec mode partly fd s (-1, { s with saveTermios := s.tty fd, errno := e })
  | entered (attrs : Termios) (start : s.ttystate = .reset) (complete : partly attrs = false) :
      EnterSpec mode partly fd s (0, { s.setTty fd attrs with
        saveTermios := s.tty fd, ttystate := mode, ttysavefd := fd })

/-- Restoring the saved attributes undoes a partial change. -/
theorem restore_setTty (s : State) (fd : Int) (attrs : Termios) :
    ({ s with saveTermios := s.tty fd }.setTty fd attrs).restore fd =
      { s with saveTermios := s.tty fd } := by
  simp [State.restore, State.setTty]

theorem enter_spec (mode : TtyState) (request : Termios → Termios) (partly : Termios → Bool)
    (fd : Int) (o : Outcomes) (s : State) :
    EnterSpec mode partly fd s (s.enter mode request partly fd o) := by
  unfold State.enter
  by_cases start : s.ttystate = .reset
  · rw [if_neg (not_not_intro start)]
    cases o.get with
    | some e => exact .refused e
    | none =>
        cases o.set with
        | error e => exact .failed e start
        | ok part =>
            simp only [restore_setTty]
            cases o.confirm with
            | some e => exact .failed e start
            | none =>
                dsimp only
                split
                · exact .failed EINVAL start
                · rename_i complete
                  apply EnterSpec.entered _ start
                  simpa [State.setTty] using complete
  · rw [if_pos start]
    exact .refused EINVAL

/-- In `RESET` the terminal has its first attributes, and elsewhere they are saved. -/
structure Inv (start : Termios) (fd : Int) (s : State) : Prop where
  reset : s.ttystate = .reset → s.tty fd = start
  saved : s.ttystate ≠ .reset → s.saveTermios = start ∧ s.ttysavefd = fd

namespace Inv

variable {start : Termios} {fd : Int} {s s' : State} {mode : TtyState}
variable {partly : Termios → Bool} {r : Int × State}

theorem enter (inv : Inv start fd s) (call : EnterSpec mode partly fd s r)
    (away : mode ≠ .reset) : Inv start fd r.2 := by
  cases call with
  | refused e => exact ⟨inv.reset, inv.saved⟩
  | failed e reset => exact ⟨inv.reset, fun other => absurd reset other⟩
  | entered attrs reset _ =>
      exact ⟨fun back => absurd back away, fun _ => ⟨inv.reset reset, rfl⟩⟩

theorem ttyReset (inv : Inv start fd s) (failed : Option Errno) :
    Inv start fd (s.ttyReset fd failed).2 := by
  unfold State.ttyReset
  split
  · exact inv
  · rename_i away
    cases failed with
    | some e => exact ⟨inv.reset, inv.saved⟩
    | none =>
        refine ⟨fun _ => ?_, fun other => absurd rfl other⟩
        simp [State.restore, State.setTty, (inv.saved away).1]

theorem call (inv : Inv start fd s) (c : Call) : Inv start fd (s.call fd c).2 := by
  cases c with
  | ttyCbreak o => exact inv.enter (enter_spec .cbreak cbreakRequest cbreakPartly fd o s) (by simp)
  | ttyRaw o => exact inv.enter (enter_spec .raw rawRequest rawPartly fd o s) (by simp)
  | ttyReset failed => exact inv.ttyReset failed
  | ttyAtexit failed =>
      show Inv start fd (s.ttyAtexit failed)
      unfold State.ttyAtexit
      split
      · by_cases away : s.ttystate = .reset
        · unfold State.ttyReset
          rw [if_pos away]
          exact inv
        · rw [(inv.saved away).2]
          exact inv.ttyReset failed
      · exact inv

end Inv

/-- What cbreak mode is: no echo, no lines, and one byte at a time without a timer. -/
structure CbreakMode (t : Termios) : Prop where
  echo : t.cLflag &&& ECHO = 0
  icanon : t.cLflag &&& ICANON = 0
  vmin : t.cCc VMIN = 1
  vtime : t.cCc VTIME = 0

/-- What raw mode is, flag by flag. -/
structure RawMode (t : Termios) : Prop extends CbreakMode t where
  iexten : t.cLflag &&& IEXTEN = 0
  isig : t.cLflag &&& ISIG = 0
  brkint : t.cIflag &&& BRKINT = 0
  icrnl : t.cIflag &&& ICRNL = 0
  inpck : t.cIflag &&& INPCK = 0
  istrip : t.cIflag &&& ISTRIP = 0
  ixon : t.cIflag &&& IXON = 0
  size : t.cCflag &&& CSIZE = CS8
  parenb : t.cCflag &&& PARENB = 0
  opost : t.cOflag &&& OPOST = 0

/-- A mask is off when each of its flags is off. -/
theorem and_or_eq_zero {a m n : Tcflag} : a &&& (m ||| n) = 0 ↔ a &&& m = 0 ∧ a &&& n = 0 := by
  rw [BitVec.and_or_distrib_left]
  exact BitVec.or_eq_zero_iff

theorem cbreakMode_of_complete {t : Termios} (h : cbreakPartly t = false) : CbreakMode t := by
  simp only [cbreakPartly, Bool.or_eq_false_iff, bne_eq_false_iff_eq, and_or_eq_zero] at h
  exact ⟨h.1.1.1, h.1.1.2, h.1.2, h.2⟩

/-- Within its mask the test on `c_cflag` fixes every flag. -/
theorem and_of_masked {c mask value flag : Tcflag} (h : c &&& mask = value)
    (inside : mask &&& flag = flag) : c &&& flag = value &&& flag := by
  rw [← inside, ← BitVec.and_assoc, h, inside]

theorem rawMode_of_complete {t : Termios} (h : rawPartly t = false) : RawMode t := by
  simp only [rawPartly, Bool.or_eq_false_iff, bne_eq_false_iff_eq, and_or_eq_zero] at h
  obtain ⟨⟨⟨⟨⟨⟨⟨echo, icanon⟩, iexten⟩, isig⟩, ⟨⟨⟨brkint, icrnl⟩, inpck⟩, istrip⟩, ixon⟩,
    control⟩, opost⟩, vmin, vtime⟩ := h
  have size : t.cCflag &&& CSIZE = CS8 := and_of_masked control (by decide)
  have parenb : t.cCflag &&& PARENB = 0 := and_of_masked control (by decide)
  exact ⟨⟨echo, icanon, vmin, vtime⟩, iexten, isig, brkint, icrnl, inpck, istrip, ixon, size,
    parenb, opost⟩

/-- What holds of the terminal `fd` between two calls, with the attributes of the start. -/
structure ModesKept (start : Termios) (fd : Int) (s : State) : Prop where
  reset : s.ttystate = .reset → s.tty fd = start
  saved : s.ttystate = .cbreak ∨ s.ttystate = .raw →
    s.saveTermios = start ∧ s.ttysavefd = fd

/-- What the value of a call says about the attributes and the mode behind it. -/
structure CallKept (fd : Int) (s : State) (c : Call) : Prop where
  failed : (s.call fd c).1 = some (-1) →
    (s.call fd c).2.tty = s.tty ∧ (s.call fd c).2.ttystate = s.ttystate
  cbreak : ∀ o, c = .ttyCbreak o → (s.call fd c).1 = some 0 →
    CbreakMode ((s.call fd c).2.tty fd)
  raw : ∀ o, c = .ttyRaw o → (s.call fd c).1 = some 0 → RawMode ((s.call fd c).2.tty fd)

theorem EnterSpec.failed_keeps {mode : TtyState} {partly : Termios → Bool} {fd : Int}
    {s : State} {r : Int × State} (call : EnterSpec mode partly fd s r) (fails : r.1 = -1) :
    r.2.tty = s.tty ∧ r.2.ttystate = s.ttystate := by
  cases call with
  | refused e => exact ⟨rfl, rfl⟩
  | failed e start => exact ⟨rfl, rfl⟩
  | entered attrs start complete => simp at fails

theorem EnterSpec.complete_of_zero {mode : TtyState} {partly : Termios → Bool} {fd : Int}
    {s : State} {r : Int × State} (call : EnterSpec mode partly fd s r) (ok : r.1 = 0) :
    partly (r.2.tty fd) = false := by
  cases call with
  | refused e => simp at ok
  | failed e start => simp at ok
  | entered attrs start complete => simpa [State.setTty] using complete

theorem callKept (fd : Int) (s : State) (c : Call) : CallKept fd s c := by
  cases c with
  | ttyCbreak o =>
      have call := enter_spec .cbreak cbreakRequest cbreakPartly fd o s
      exact ⟨fun fails => call.failed_keeps (Option.some.inj fails),
        fun _ _ ok => cbreakMode_of_complete (call.complete_of_zero (Option.some.inj ok)), by simp⟩
  | ttyRaw o =>
      have call := enter_spec .raw rawRequest rawPartly fd o s
      exact ⟨fun fails => call.failed_keeps (Option.some.inj fails), by simp,
        fun _ _ ok => rawMode_of_complete (call.complete_of_zero (Option.some.inj ok))⟩
  | ttyReset failed =>
      refine ⟨fun fails => ?_, by simp, by simp⟩
      simp only [State.call, State.ttyReset] at fails ⊢
      split at fails
      · simp at fails
      · rename_i away
        rw [if_neg away]
        cases failed with
        | some e => exact ⟨rfl, rfl⟩
        | none => simp at fails
  | ttyAtexit failed => exact ⟨by simp [State.call], by simp, by simp⟩

/-- The mode and the saved attributes fit the terminal in every sequence of calls on it, and
the value of each call is right about what it has done. -/
theorem modes_kept {tty : Int → Termios} {saveTermios : Termios} {fd : Int} {s : State}
    (h : Reachable (Step fd) (.init tty saveTermios) s) :
    ModesKept (tty fd) fd s ∧ ∀ c, CallKept fd s c := by
  have first : Inv (tty fd) fd (.init tty saveTermios) :=
    ⟨fun _ => rfl, fun away => absurd rfl away⟩
  have inv : Inv (tty fd) fd s := by
    refine h.invariant first fun s c s' inv hstep => ?_
    obtain rfl : (s.call fd c).2 = s' := hstep
    exact inv.call c
  refine ⟨⟨inv.reset, fun away => inv.saved ?_⟩, fun c => callKept fd s c⟩
  obtain cbreak | raw := away
  · simp [cbreak]
  · simp [raw]

/-- A terminal as a shell leaves it, as far as the source looks at it. -/
def cooked : Termios := ⟨ICRNL ||| IXON, OPOST, CS8, ECHO ||| ICANON ||| ISIG, fun _ => 0⟩

/-- A driver that changes nothing is found out, and the attempt behind it is successful. -/
theorem modes_kept_partial :
    ∃ s, Reachable (Step 0) (.init (fun _ => cooked) cooked) s ∧ s.ttystate = .cbreak ∧
      (ModesKept cooked 0 s ∧ ∀ c, CallKept 0 s c) := by
  let ignored : Applied := ⟨0, 0, 0, 0, fun _ => false⟩
  let complete : Applied := ⟨~~~0, ~~~0, ~~~0, ~~~0, fun _ => true⟩
  have run : ∃ s, Steps (Step 0) (.init (fun _ => cooked) cooked)
      [.ttyCbreak ⟨none, .ok ignored, none⟩, .ttyCbreak ⟨none, .ok complete, none⟩] s ∧
      s.ttystate = .cbreak :=
    ⟨_, .cons rfl (.single rfl), by decide⟩
  obtain ⟨s, steps, cbreak⟩ := run
  exact ⟨s, ⟨_, steps⟩, cbreak, modes_kept ⟨_, steps⟩⟩

end UnixProgramming.TermIo
