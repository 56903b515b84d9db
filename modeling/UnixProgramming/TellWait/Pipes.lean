import UnixProgramming.Library.CMemory
import UnixProgramming.Library.Pipe
import UnixProgramming.Library.Transition
import Mathlib.Logic.Function.Basic

/-!
# `ipc_test.c`: tell and wait over two pipes

After `TELL_WAIT` and `fork` both processes hold all four descriptors of the two
pipes, so no read ever meets an end of file. The parent calls `TELL_CHILD` and
`WAIT_CHILD` and the child calls `TELL_PARENT` and `WAIT_PARENT`, in any order. A wait is
entered in one step and returns in another, and its `read` blocks in between.
-/

namespace UnixProgramming.TellWait

open CMemory Transition

inductive Side
  | parent
  | child
  deriving DecidableEq

def Side.peer : Side → Side
  | parent => child
  | child => parent

namespace Pipes

/-- The two `int[2]` of the source. -/
inductive PipeVar
  | pfd1
  | pfd2
  deriving DecidableEq

/-- A descriptor `pfd[end]`: 0 is the end for reading and 1 the end for writing. -/
structure Fd where
  pfd : PipeVar
  index : Nat

inductive Pc
  | ready
  | reading
  | quit (c : UInt8)
  deriving DecidableEq

/-- The pipes, what each process is doing, how often it has told and how many of its waits
have returned. -/
structure State where
  pipe : PipeVar → Pipe
  pc : Side → Pc
  tells : Side → Nat
  waits : Side → Nat

/-- Why there is no next state: the call blocks or cannot be made, or it is an error. -/
inductive Stop
  | disabled
  | ebadf
  deriving DecidableEq

namespace State

/-- `TELL_WAIT`, and then `fork`. -/
def tellWait : State :=
  ⟨fun _ => ⟨[], false⟩, fun _ => .ready, fun _ => 0, fun _ => 0⟩

def setPipe (s : State) (pfd : PipeVar) (pipe : Pipe) : State :=
  { s with pipe := Function.update s.pipe pfd pipe }

@[simp] theorem setPipe_pc (s : State) (pfd : PipeVar) (pipe : Pipe) :
    (s.setPipe pfd pipe).pc = s.pc := rfl

@[simp] theorem setPipe_tells (s : State) (pfd : PipeVar) (pipe : Pipe) :
    (s.setPipe pfd pipe).tells = s.tells := rfl

@[simp] theorem setPipe_waits (s : State) (pfd : PipeVar) (pipe : Pipe) :
    (s.setPipe pfd pipe).waits = s.waits := rfl

def write (s : State) (fd : Fd) (bytes : Block) : Except Stop State :=
  if fd.index = 1 then .ok (s.setPipe fd.pfd ((s.pipe fd.pfd).write bytes))
  else .error .ebadf

/-- A `read` for one byte. -/
def read (s : State) (fd : Fd) : Except Stop (Block × State) :=
  if fd.index = 0 then
    match (s.pipe fd.pfd).read 1 1 with
    | some (bytes, rest) => .ok (bytes, s.setPipe fd.pfd rest)
    | none => .error .disabled
  else .error .ebadf

def goto (s : State) (side : Side) (next : Pc) : State :=
  { s with pc := Function.update s.pc side next }

@[simp] theorem goto_pipe (s : State) (side : Side) (next : Pc) :
    (s.goto side next).pipe = s.pipe := rfl

@[simp] theorem goto_tells (s : State) (side : Side) (next : Pc) :
    (s.goto side next).tells = s.tells := rfl

@[simp] theorem goto_waits (s : State) (side : Side) (next : Pc) :
    (s.goto side next).waits = s.waits := rfl

/-- A tell of `side`: it writes `text` to `fd`. -/
def tell (side : Side) (fd : Fd) (text : Block) (s : State) : Except Stop State :=
  if s.pc side = .ready then
    match s.write fd text with
    | .ok s => .ok { s with tells := Function.update s.tells side (s.tells side + 1) }
    | .error stop => .error stop
  else .error .disabled

def tellParent : State → Except Stop State := tell .child ⟨.pfd2, 1⟩ (ascii "c")

def tellChild : State → Except Stop State := tell .parent ⟨.pfd1, 1⟩ (ascii "p")

/-- A wait that has been entered: it reads from `fd` and returns if the byte is the one of
`text`. Otherwise it leaves through `err_quit`. -/
def wait (side : Side) (fd : Fd) (text : Block) (s : State) : Except Stop State :=
  if s.pc side = .reading then
    match s.read fd with
    | .ok (bytes, s) =>
        if bytes = text then
          .ok { s.goto side .ready with
            waits := Function.update s.waits side (s.waits side + 1) }
        else .ok (s.goto side (.quit (bytes.headD 0)))
    | .error stop => .error stop
  else .error .disabled

def waitParent : State → Except Stop State := wait .child ⟨.pfd1, 0⟩ (ascii "p")

def waitChild : State → Except Stop State := wait .parent ⟨.pfd2, 0⟩ (ascii "c")

end State

/-- A whole tell, the call of a wait, or the rest of a wait that has been called. -/
inductive Action
  | tell
  | callWait
  | finishWait
  deriving DecidableEq

/-- One side takes one of its actions. -/
def State.step (s : State) : Side × Action → Except Stop State
  | (.parent, .tell) => s.tellChild
  | (.child, .tell) => s.tellParent
  | (side, .callWait) =>
      if s.pc side = .ready then .ok (s.goto side .reading) else .error .disabled
  | (.parent, .finishWait) => s.waitChild
  | (.child, .finishWait) => s.waitParent

def Step (s : State) (act : Side × Action) (s' : State) : Prop := s.step act = .ok s'

/-- The pipe that a side tells over, and what it writes there. -/
def out : Side → PipeVar
  | .parent => .pfd1
  | .child => .pfd2

def text : Side → Block
  | .parent => ascii "p"
  | .child => ascii "c"

theorem step_tell (s : State) (side : Side) :
    s.step (side, .tell) = s.tell side ⟨out side, 1⟩ (text side) := by
  cases side <;> rfl

theorem step_finishWait (s : State) (side : Side) :
    s.step (side, .finishWait) = s.wait side ⟨out side.peer, 0⟩ (text side.peer) := by
  cases side <;> rfl

/-- The one byte of a tell. -/
def token : Side → UInt8
  | .parent => 112
  | .child => 99

theorem text_eq (side : Side) : text side = [token side] := by
  cases side <;> rfl

theorem out_injective {side side' : Side} (h : out side = out side') : side = side' := by
  cases side <;> cases side' <;> first | rfl | cases h

theorem peer_peer (side : Side) : side.peer.peer = side := by
  cases side <;> rfl

/-- The pipe of a side with `n` of its tells in it. -/
def holding (side : Side) (n : Nat) : Pipe := ⟨List.replicate n (token side), false⟩

/-- Each pipe carries the tokens of its own direction that no wait has taken yet. -/
structure Inv (s : State) : Prop where
  waited : ∀ side, s.waits side.peer ≤ s.tells side
  carries : ∀ side, s.pipe (out side) = holding side (s.tells side - s.waits side.peer)
  running : ∀ side c, s.pc side ≠ .quit c

namespace Inv

variable {s s' : State} {side : Side}

theorem tellWait : Inv .tellWait where
  waited _ := le_rfl
  carries _ := rfl
  running _ _ := by simp [State.tellWait]

/-- A tell puts one more token into the pipe of its side. -/
theorem tell (inv : Inv s) (hstep : s.tell side ⟨out side, 1⟩ (text side) = .ok s') : Inv s' := by
  rw [State.tell] at hstep
  split at hstep
  · cases hstep
    refine ⟨fun side' => ?_, fun side' => ?_, inv.running⟩
    · by_cases same : side' = side
      · subst same
        have := inv.waited side'
        simp
        omega
      · simpa [same] using inv.waited side'
    · by_cases same : side' = side
      · subst same
        have more : s.tells side' + 1 - s.waits side'.peer =
            s.tells side' - s.waits side'.peer + 1 := by
          have := inv.waited side'
          omega
        simp [State.setPipe, Pipe.write, inv.carries side', holding, text_eq, more,
          List.replicate_succ']
      · have other : out side' ≠ out side := fun h => same (out_injective h)
        simpa [State.setPipe, same, other] using inv.carries side'
  · cases hstep

/-- The `read` of a wait finds a token of the other side, or it blocks. -/
theorem read (inv : Inv s) (bytes : Block) (s₁ : State)
    (call : s.read ⟨out side, 0⟩ = .ok (bytes, s₁)) :
    bytes = text side ∧ s.waits side.peer < s.tells side ∧
      s₁ = s.setPipe (out side) (holding side (s.tells side - s.waits side.peer - 1)) := by
  simp only [State.read, inv.carries side, holding] at call
  cases left : s.tells side - s.waits side.peer with
  | zero => simp [left, Pipe.read] at call
  | succ n =>
      simp [left, Pipe.read, List.replicate_succ] at call
      obtain ⟨rfl, rfl⟩ := call
      exact ⟨(text_eq side).symm, by omega, by simp [holding]⟩

/-- A wait of the peer takes one token of the side, and it is the one it expects. -/
theorem wait (inv : Inv s)
    (hstep : s.wait side.peer ⟨out side, 0⟩ (text side) = .ok s') : Inv s' := by
  rw [State.wait] at hstep
  split at hstep
  · cases call : s.read ⟨out side, 0⟩ with
    | error stop => simp [call] at hstep
    | ok result =>
        obtain ⟨bytes, s₁⟩ := result
        obtain ⟨rfl, told, rfl⟩ := inv.read bytes s₁ call
        rw [call] at hstep
        simp only [if_true] at hstep
        cases hstep
        refine ⟨fun side' => ?_, fun side' => ?_, fun side' c => ?_⟩
        · by_cases same : side' = side
          · subst same
            simp
            omega
          · have other : side'.peer ≠ side.peer := fun h =>
              same (by rw [← peer_peer side', h, peer_peer])
            simpa [other] using inv.waited side'
        · by_cases same : side' = side
          · subst same
            simp [State.setPipe, Nat.sub_add_eq]
          · have other : side'.peer ≠ side.peer := fun h =>
              same (by rw [← peer_peer side', h, peer_peer])
            have otherPipe : out side' ≠ out side := fun h => same (out_injective h)
            simpa [State.setPipe, other, otherPipe] using inv.carries side'
        · by_cases same : side' = side.peer
          · subst same
            simp [State.goto]
          · simpa [State.goto, same] using inv.running side' c
  · cases hstep

theorem step {act : Side × Action} (inv : Inv s) (hstep : Step s act s') : Inv s' := by
  obtain ⟨side, action⟩ := act
  cases action with
  | tell =>
      rw [Step, step_tell] at hstep
      exact inv.tell hstep
  | callWait =>
      have called : (if s.pc side = .ready then .ok (s.goto side .reading)
          else .error .disabled) = Except.ok (ε := Stop) s' := by
        cases side <;> exact hstep
      split at called
      · cases called
        refine ⟨inv.waited, inv.carries, fun side' c => ?_⟩
        by_cases same : side' = side
        · simp [State.goto, same]
        · simpa [State.goto, same] using inv.running side' c
      · cases called
  | finishWait =>
      rw [Step, step_finishWait] at hstep
      have back : s.wait side.peer.peer ⟨out side.peer, 0⟩ (text side.peer) = .ok s' := by
        rw [peer_peer]
        exact hstep
      exact inv.wait back

end Inv

/-- The promise of the handshake for the tells of one side and the waits of the other. -/
structure Handshake (s : State) (teller waiter : Side) (pfd : PipeVar) : Prop where
  after : s.waits waiter ≤ s.tells teller
  tokens : ((s.pipe pfd).data.length : Int) = s.tells teller - s.waits waiter

/-- In every interleaving the waits of a side return only behind as many tells of the
other side, each pipe holds the tells not waited for, and no wait meets a wrong byte. -/
theorem handshake {s : State} (h : Reachable Step .tellWait s) :
    Handshake s .parent .child .pfd1 ∧ Handshake s .child .parent .pfd2 ∧
      ∀ side c, s.pc side ≠ .quit c := by
  have inv : Inv s := h.invariant .tellWait fun _ _ _ inv hstep => inv.step hstep
  have direction (side : Side) : Handshake s side side.peer (out side) := by
    have waited := inv.waited side
    refine ⟨waited, ?_⟩
    rw [inv.carries side]
    simp only [holding, List.length_replicate]
    omega
  exact ⟨direction .parent, direction .child, inv.running⟩

/-- Both directions once, and the parent's second tell before the child waits for it. -/
theorem handshake_twice :
    ∃ s, Reachable Step .tellWait s ∧ s.tells .parent = 2 ∧ s.waits .child = 1 ∧
      (Handshake s .parent .child .pfd1 ∧ Handshake s .child .parent .pfd2 ∧
        ∀ side c, s.pc side ≠ .quit c) := by
  have run : ∃ s, Steps Step .tellWait
      [(.parent, .callWait), (.child, .tell), (.child, .callWait), (.parent, .finishWait),
        (.parent, .tell), (.parent, .tell), (.child, .finishWait)] s ∧
      s.tells .parent = 2 ∧ s.waits .child = 1 :=
    ⟨_, Steps.of_foldlM_except rfl, rfl, rfl⟩
  obtain ⟨s, steps, tells, waits⟩ := run
  exact ⟨s, ⟨_, steps⟩, tells, waits, handshake ⟨_, steps⟩⟩

end Pipes

end UnixProgramming.TellWait
