import UnixProgramming.Library.CMemory
import UnixProgramming.Library.Transition
import Mathlib.Logic.Function.Basic

/-!
# `echo_tcp_server_v2.c`: the main loop with `poll`

One process serves the listening socket and all connections. A step is a call of `poll`,
the branch for the listening socket, or a visit of the scan to one slot. Each carries what
the system calls in it return. `err_sys` prints and returns, so the loop also goes on behind
a `poll`, an `accept`, a `read` or a `write` that has failed.
-/

namespace UnixProgramming.PollServer

open CMemory Transition

def OPEN_MAX : Nat := 1024

def MAXLINE : Nat := 512

/-- A set of `POLL*` bits in a `short`. -/
abbrev Events := BitVec 16

def POLLERR : Events := 0x008#16
def POLLHUP : Events := 0x010#16
def POLLRDNORM : Events := 0x040#16

structure Pollfd where
  fd : Int
  events : Events
  revents : Events
  deriving DecidableEq

/-- `client[i].revents & (POLLRDNORM | POLLERR)`, for a slot that is in use. -/
def Pollfd.ready (p : Pollfd) : Bool :=
  0 ≤ p.fd && p.revents &&& (POLLRDNORM ||| POLLERR) != 0#16

/-- The bytes of a connection that the server has read, and those it has sent. -/
structure Traffic where
  got : Block
  sent : Block
  deriving DecidableEq

inductive Pc
  | poll
  | listen
  | scan (i : Nat)
  | exited
  deriving DecidableEq

/-- The variables of `main`, the connections that it has accepted and not closed by their
descriptors, those that it has closed, and what the last `poll` has reported. -/
structure State where
  listenfd : Int
  client : Nat → Pollfd
  maxindex : Nat
  nready : Int
  buf : Block
  pc : Pc
  conn : Int → Option Traffic
  closed : List Traffic
  reported : List (Int × Events)

/-- The value of `poll` and the `revents` that it stores, unless it fails. -/
inductive PollResult
  | failed
  | ok (nready : Int) (revents : Nat → Events)

/-- The result of a `read`. Behind data there is also the value of the `write`, unless that
fails. -/
inductive ReadResult
  | data (bytes : Block) (written : Option Nat)
  | eof
  | econnreset
  | error
  deriving DecidableEq

inductive Action
  | poll (r : PollResult)
  | accept (connfd : Int)
  | acceptFails
  | noConnection
  | pass
  | serve (r : ReadResult)
  | endScan

namespace State

/-- The state at the start of the loop. The array is not initialised but for `client[0]` and
the descriptors. -/
def init (listenfd : Int) (client : Nat → Pollfd) (buf : Block) : State where
  listenfd := listenfd
  client := fun i =>
    if i = 0 then { client 0 with fd := listenfd, events := POLLRDNORM }
    else { client i with fd := -1 }
  maxindex := 0
  nready := 0
  buf := buf
  pc := .poll
  conn := fun _ => none
  closed := []
  reported := []

/-- `nready = Poll(client, maxindex+1, INFTIM)`. -/
def poll (s : State) : PollResult → State
  | .failed => { s with nready := -1, reported := [], pc := .listen }
  | .ok nready revents =>
      { s with
        client := fun i =>
          if i ≤ s.maxindex then { s.client i with revents := revents i } else s.client i
        nready := nready
        reported := (List.range (s.maxindex + 1)).map fun i => ((s.client i).fd, revents i)
        pc := .listen }

/-- The first slot from 1 on that is not in use. -/
def freeSlot (s : State) : Option Nat :=
  (List.range' 1 (OPEN_MAX - 1)).find? fun i => (s.client i).fd < 0

/-- `if (--nready <= 0)` and the loop head, or else `next`. -/
def countReady (s : State) (next : Pc) : State :=
  { s with nready := s.nready - 1, pc := if s.nready - 1 ≤ 0 then .poll else next }

def setClient (s : State) (i : Nat) (p : Pollfd) : State :=
  { s with client := Function.update s.client i p }

/-- What `Accept` has returned goes into slot `i`. -/
def takeSlot (s : State) (i : Nat) (connfd : Int) : State :=
  { (s.setClient i { s.client i with fd := connfd, events := POLLRDNORM }).countReady (.scan 1) with
    maxindex := if s.maxindex < i then i else s.maxindex }

def openConn (s : State) (connfd : Int) : State :=
  { s with conn := Function.update s.conn connfd (some ⟨[], []⟩) }

/-- A new connection, which `accept` returns on a descriptor that is not in use. -/
def accept (s : State) (connfd : Int) : State :=
  match s.freeSlot with
  | none => { s with pc := .exited }
  | some i => (s.takeSlot i connfd).openConn connfd

/-- `Accept` prints and returns -1, which is put into the free slot like a descriptor. -/
def acceptFails (s : State) : State :=
  match s.freeSlot with
  | none => { s with pc := .exited }
  | some i => s.takeSlot i (-1)

/-- `Close(sockfd); client[i].fd = -1;` -/
def close (s : State) (i : Nat) : State :=
  let sockfd := (s.client i).fd
  { s.setClient i { s.client i with fd := -1 } with
    conn := Function.update s.conn sockfd none
    closed := (s.conn sockfd).toList ++ s.closed }

/-- `n` bytes into `buf`, and one `write` of them. -/
def echo (s : State) (i : Nat) (bytes : Block) (written : Option Nat) : State :=
  let sockfd := (s.client i).fd
  let buf := fill s.buf bytes
  let out := (buf.take bytes.length).take (written.getD 0)
  { s with
    buf := buf
    conn := Function.update s.conn sockfd
      ((s.conn sockfd).map fun tr => ⟨tr.got ++ bytes, tr.sent ++ out⟩) }

def serve (s : State) (i : Nat) : ReadResult → State
  | .data bytes written => s.echo i bytes written
  | .eof | .econnreset => s.close i
  -- err_sys("read error")
  | .error => s

end State

/-- What a `read` and a `write` can return. -/
def ReadResult.Possible : ReadResult → Prop
  | .data bytes written => 0 < bytes.length ∧ bytes.length ≤ MAXLINE ∧
      ∀ count ∈ written, count ≤ bytes.length
  | .eof | .econnreset | .error => True

instance : DecidablePred ReadResult.Possible
  | .data bytes written => inferInstanceAs (Decidable (0 < bytes.length ∧
      bytes.length ≤ MAXLINE ∧ ∀ count ∈ written, count ≤ bytes.length))
  | .eof | .econnreset | .error => inferInstanceAs (Decidable True)

namespace State

/-- The kernel hands out a descriptor that is not in use. -/
def Fresh (s : State) (connfd : Int) : Prop :=
  0 ≤ connfd ∧ connfd ≠ s.listenfd ∧ s.conn connfd = none

instance (s : State) (connfd : Int) : Decidable (s.Fresh connfd) :=
  inferInstanceAs (Decidable (0 ≤ connfd ∧ connfd ≠ s.listenfd ∧ s.conn connfd = none))

/-- `client[0].revents & POLLRDNORM`. -/
def connecting (s : State) : Bool := (s.client 0).revents &&& POLLRDNORM != 0#16

def step (s : State) : Action → Option State
  | .poll r => if s.pc = .poll then some (s.poll r) else none
  | .accept connfd =>
      if s.pc = .listen ∧ s.connecting = true ∧ s.Fresh connfd then some (s.accept connfd)
      else none
  | .acceptFails =>
      if s.pc = .listen ∧ s.connecting = true then some s.acceptFails else none
  | .noConnection =>
      if s.pc = .listen ∧ s.connecting = false then some { s with pc := .scan 1 } else none
  | .pass =>
      match s.pc with
      | .scan i =>
          if i ≤ s.maxindex ∧ (s.client i).ready = false then
            some { s with pc := .scan (i + 1) }
          else none
      | _ => none
  | .serve r =>
      match s.pc with
      | .scan i =>
          if i ≤ s.maxindex ∧ (s.client i).ready = true ∧ r.Possible then
            some ((s.serve i r).countReady (.scan (i + 1)))
          else none
      | _ => none
  | .endScan =>
      match s.pc with
      | .scan i => if s.maxindex < i then some { s with pc := .poll } else none
      | _ => none

end State

def Step (s : State) (act : Action) (s' : State) : Prop := s.step act = some s'

/-- What one step can do. -/
inductive Effect (s : State) : Action → State → Prop
  | poll (r : PollResult) (at_ : s.pc = .poll) : Effect s (.poll r) (s.poll r)
  | full (connfd : Int) (at_ : s.pc = .listen) (full : s.freeSlot = none) :
      Effect s (.accept connfd) { s with pc := .exited }
  | fullFails (at_ : s.pc = .listen) (full : s.freeSlot = none) :
      Effect s .acceptFails { s with pc := .exited }
  | accept (connfd : Int) (i : Nat) (at_ : s.pc = .listen) (fresh : s.Fresh connfd)
      (free : s.freeSlot = some i) :
      Effect s (.accept connfd) ((s.takeSlot i connfd).openConn connfd)
  | acceptFails (i : Nat) (at_ : s.pc = .listen) (free : s.freeSlot = some i) :
      Effect s .acceptFails (s.takeSlot i (-1))
  | noConnection (at_ : s.pc = .listen) (quiet : s.connecting = false) :
      Effect s .noConnection { s with pc := .scan 1 }
  | pass (i : Nat) (at_ : s.pc = .scan i) (inside : i ≤ s.maxindex)
      (quiet : (s.client i).ready = false) : Effect s .pass { s with pc := .scan (i + 1) }
  | serve (i : Nat) (r : ReadResult) (at_ : s.pc = .scan i) (inside : i ≤ s.maxindex)
      (ready : (s.client i).ready = true) (possible : r.Possible) :
      Effect s (.serve r) ((s.serve i r).countReady (.scan (i + 1)))
  | endScan (i : Nat) (at_ : s.pc = .scan i) (outside : s.maxindex < i) :
      Effect s .endScan { s with pc := .poll }

theorem effect_of_step {s s' : State} {act : Action} (h : Step s act s') : Effect s act s' := by
  cases act with
  | poll r =>
      obtain ⟨at_, h⟩ := Option.ite_none_right_eq_some.mp h
      cases h
      exact .poll r at_
  | accept connfd =>
      obtain ⟨⟨at_, -, fresh⟩, h⟩ := Option.ite_none_right_eq_some.mp h
      cases h
      simp only [State.accept]
      cases free : s.freeSlot with
      | none => exact .full connfd at_ free
      | some i => exact .accept connfd i at_ fresh free
  | acceptFails =>
      obtain ⟨⟨at_, -⟩, h⟩ := Option.ite_none_right_eq_some.mp h
      cases h
      simp only [State.acceptFails]
      cases free : s.freeSlot with
      | none => exact .fullFails at_ free
      | some i => exact .acceptFails i at_ free
  | noConnection =>
      obtain ⟨⟨at_, quiet⟩, h⟩ := Option.ite_none_right_eq_some.mp h
      cases h
      exact .noConnection at_ quiet
  | pass =>
      simp only [Step, State.step] at h
      split at h
      · rename_i i at_
        obtain ⟨⟨inside, quiet⟩, h⟩ := Option.ite_none_right_eq_some.mp h
        cases h
        exact .pass i at_ inside quiet
      · cases h
  | serve r =>
      simp only [Step, State.step] at h
      split at h
      · rename_i i at_
        obtain ⟨⟨inside, ready, possible⟩, h⟩ := Option.ite_none_right_eq_some.mp h
        cases h
        exact .serve i r at_ inside ready possible
      · cases h
  | endScan =>
      simp only [Step, State.step] at h
      split at h
      · rename_i i at_
        obtain ⟨outside, h⟩ := Option.ite_none_right_eq_some.mp h
        cases h
        exact .endScan i at_ outside
      · cases h

/-- The free slot is the first one from 1 on. -/
theorem freeSlot_spec {s : State} {i : Nat} (h : s.freeSlot = some i) :
    1 ≤ i ∧ i < OPEN_MAX ∧ (s.client i).fd < 0 ∧
      ∀ j, 1 ≤ j → j < i → 0 ≤ (s.client j).fd := by
  obtain ⟨free, inside, before⟩ := List.find?_range'_eq_some.mp h
  have bounds := List.mem_range'_1.mp inside
  have slots : 1 + (OPEN_MAX - 1) = OPEN_MAX := rfl
  rw [slots] at bounds
  exact ⟨bounds.1, bounds.2, by simpa using free, fun j hj hji => by simpa using before j hj hji⟩

theorem serve_client_of_ne {s : State} {i j : Nat} (r : ReadResult) (h : j ≠ i) :
    (s.serve i r).client j = s.client j := by
  cases r <;> simp [State.serve, State.echo, State.close, State.setClient, h]

theorem serve_fixed (s : State) (i : Nat) (r : ReadResult) :
    (s.serve i r).maxindex = s.maxindex ∧ (s.serve i r).nready = s.nready ∧
      (s.serve i r).reported = s.reported := by
  cases r <;> exact ⟨rfl, rfl, rfl⟩

/-- The scan goes on only while there is something left of `nready`. -/
theorem scan_of_countReady {s : State} {i j : Nat}
    (h : (s.countReady (.scan i)).pc = .scan j) : j = i ∧ 1 < s.nready := by
  simp only [State.countReady] at h
  split at h
  · cases h
  · cases h
    exact ⟨rfl, by omega⟩

end UnixProgramming.PollServer
