import UnixProgramming.Library.CString
import UnixProgramming.Unp.Records
import UnixProgramming.Library.Transition
import Mathlib.Data.Finset.Basic
import Mathlib.Data.Finset.Card
import Mathlib.Data.Finset.Filter
import Mathlib.Logic.Function.Basic

/-!
# `echo_tcp_server_v2.c`: the main loop with `select`

The slots of `client` hold bare descriptors, and what is waited for is a set of bits beside
them. A step is a call of `select`, the branch for the listening socket, or a visit of the
scan to one slot. Each carries what the system calls in it return. The wrappers print an
error and return, so the loop goes on behind a `select` that has failed. `FD_SET` does not
check its descriptor, and the result of `Read` is taken as a size. Of the log lines only the
one behind `Read` is here, for it prints `buff` as a string and nothing puts a NUL there.
-/

namespace UnixProgramming.SelectServer

open CMemory Descriptor Transition Unp

def FD_SETSIZE : Nat := 1024

def MAXLINE : Nat := 512

/-- The bits that are set in an `fd_set`. -/
abbrev FdSet := Finset Int

/-- The descriptors that an `fd_set` has a bit for. -/
def InSet (fd : Int) : Prop := 0 ≤ fd ∧ fd < FD_SETSIZE

instance : DecidablePred InSet := fun fd =>
  inferInstanceAs (Decidable (0 ≤ fd ∧ fd < FD_SETSIZE))

/-- The bytes of a connection that the server has read, and those it has sent. -/
structure Traffic where
  got : Block
  sent : Block
  deriving DecidableEq

inductive Pc
  | select
  | listen
  | scan (i : Nat)
  | exited
  | undefined
  deriving DecidableEq

/-- What the last `select` has returned. -/
inductive Report
  | none
  | failed
  | ready (fds : FdSet)
  deriving DecidableEq

/-- The variables of `main`, the connections that are open by their descriptors, those that
have been closed, and the descriptors on which `accept` or `read` has been called since the
last `select`. -/
structure State where
  listenfd : Int
  client : Nat → Int
  maxi : Int
  maxfd : Int
  allset : FdSet
  rset : FdSet
  nready : Int
  buff : Block
  pc : Pc
  conn : Int → Option Traffic
  closed : List Traffic
  report : Report
  served : List Int

/-- What `main` has when it comes to the loop. -/
structure Start where
  listenfd : Int
  buff : Block
  inside : InSet listenfd
  size : buff.length = MAXLINE

/-- The result of a `Read`, with what the socket does to the `Writen` behind it. -/
inductive ReadResult
  | data (bytes : Block) (out : Sink)
  | eof
  | error (out : Sink)
  deriving DecidableEq

/-- The descriptors that are readable, unless the call fails. -/
inductive SelectResult
  | failed
  | ok (readable : FdSet)

inductive Action
  | select (r : SelectResult)
  | accept (connfd : Int)
  | acceptFails
  | noConnection
  | pass
  | serve (r : ReadResult)
  | endScan

/-- A `ssize_t` as a `size_t`. -/
def asSize (n : Int) : Nat := (n % 2 ^ 64).toNat

namespace State

def init (start : Start) : State where
  listenfd := start.listenfd
  client := fun _ => -1
  maxi := -1
  maxfd := start.listenfd
  allset := {start.listenfd}
  rset := ∅
  nready := 0
  buff := start.buff
  pc := .select
  conn := fun _ => none
  closed := []
  report := .none
  served := []

/-- `rset = allset; nready = Select(maxfd + 1, &rset, NULL, NULL, NULL);`. A call that fails
leaves the set as it is. -/
def select (s : State) : SelectResult → State
  | .failed =>
      { s with rset := s.allset, nready := -1, pc := .listen, report := .failed, served := [] }
  | .ok readable =>
      let rset := s.allset.filter fun fd => fd < s.maxfd + 1 ∧ fd ∈ readable
      { s with
        rset := rset, nready := rset.card, pc := .listen, report := .ready rset, served := [] }

/-- The first slot that is not in use. -/
def freeSlot (s : State) : Option Nat :=
  (List.range' 0 FD_SETSIZE).find? fun i => s.client i < 0

/-- `if (--nready <= 0)` and the loop head, or else `next`. -/
def countReady (s : State) (next : Pc) : State :=
  { s with nready := s.nready - 1, pc := if s.nready - 1 ≤ 0 then .select else next }

def setClient (s : State) (i : Nat) (fd : Int) : State :=
  { s with client := Function.update s.client i fd }

/-- `FD_SET(connfd, &allset)` and what follows, once slot `i` is taken. -/
def watch (s : State) (i : Nat) (connfd : Int) : State :=
  { s with
    allset := insert connfd s.allset
    maxfd := if connfd > s.maxfd then connfd else s.maxfd
    maxi := if i > s.maxi then i else s.maxi
    conn := Function.update s.conn connfd (some ⟨[], []⟩)
    served := s.listenfd :: s.served }

/-- A new connection, which `accept` returns on a descriptor that is not in use. -/
def accept (s : State) (connfd : Int) : State :=
  match s.freeSlot with
  -- err_quit("too many clients")
  | none => { s with pc := .exited }
  | some i =>
      let s := s.setClient i connfd
      if InSet connfd then (s.watch i connfd).countReady (.scan 0) else { s with pc := .undefined }

/-- `Close(sockfd); FD_CLR(sockfd, &allset); client[i] = -1;` -/
def close (s : State) (i : Nat) : State :=
  let sockfd := s.client i
  { s.setClient i (-1) with
    allset := s.allset.erase sockfd
    conn := Function.update s.conn sockfd none
    closed := (s.conn sockfd).toList ++ s.closed }

/-- The bytes of a `Read` on the descriptor in slot `i`. -/
def receive (s : State) (i : Nat) (bytes : Block) : State :=
  { s with
    buff := fill s.buff bytes
    conn := Function.update s.conn (s.client i)
      ((s.conn (s.client i)).map fun tr => ⟨tr.got ++ bytes, tr.sent⟩) }

/-- `Writen(sockfd, buff, n);`, whose value is not looked at. -/
def sendBack (s : State) (i : Nat) (n : Int) (out : Sink) : State :=
  match writen out s.buff (asSize n) with
  | .error _ => { s with pc := .undefined }
  | .ok r =>
      { s with
        conn := Function.update s.conn (s.client i)
          ((s.conn (s.client i)).map fun tr => ⟨tr.got, tr.sent ++ r.wire⟩) }

/-- `LOG_D("... %s", sockfd, n, buff);` and `Writen`. -/
def echo (s : State) (i : Nat) (bytes : Block) (n : Int) (out : Sink) : State :=
  let s := s.receive i bytes
  match readString s.buff with
  | .error _ => { s with pc := .undefined }
  | .ok _ => s.sendBack i n out

def serve (s : State) (i : Nat) : ReadResult → State
  | .data bytes out => s.echo i bytes bytes.length out
  | .eof => s.close i
  -- `n` is -1
  | .error out => s.echo i [] (-1) out

/-- `Read` on the descriptor in slot `i`, and `if (--nready <= 0)`. -/
def visit (s : State) (i : Nat) (r : ReadResult) : State :=
  let t := { s.serve i r with served := s.client i :: s.served }
  if t.pc = .undefined then t else t.countReady (.scan (i + 1))

/-- The kernel hands out a descriptor that is not in use. -/
def Fresh (s : State) (connfd : Int) : Prop :=
  0 ≤ connfd ∧ connfd ≠ s.listenfd ∧ s.conn connfd = none

instance (s : State) (connfd : Int) : Decidable (s.Fresh connfd) :=
  inferInstanceAs (Decidable (0 ≤ connfd ∧ connfd ≠ s.listenfd ∧ s.conn connfd = none))

/-- `client[i]` is in use and readable. -/
def ready (s : State) (i : Nat) : Bool := 0 ≤ s.client i && s.client i ∈ s.rset

end State

/-- What a `read` of at most `sizeof(buff)` bytes can return. -/
def ReadResult.Possible : ReadResult → Prop
  | .data bytes _ => 0 < bytes.length ∧ bytes.length ≤ MAXLINE
  | .eof | .error _ => True

instance : DecidablePred ReadResult.Possible
  | .data bytes _ => inferInstanceAs (Decidable (0 < bytes.length ∧ bytes.length ≤ MAXLINE))
  | .eof | .error _ => inferInstanceAs (Decidable True)

def State.step (s : State) : Action → Option State
  | .select r => if s.pc = .select then some (s.select r) else none
  | .accept connfd =>
      if s.pc = .listen ∧ s.listenfd ∈ s.rset ∧ s.Fresh connfd then some (s.accept connfd)
      else none
  | .acceptFails =>
      if s.pc = .listen ∧ s.listenfd ∈ s.rset then some (s.accept (-1)) else none
  | .noConnection =>
      if s.pc = .listen ∧ s.listenfd ∉ s.rset then some { s with pc := .scan 0 } else none
  | .pass =>
      match s.pc with
      | .scan i =>
          if i ≤ s.maxi ∧ s.ready i = false then some { s with pc := .scan (i + 1) } else none
      | _ => none
  | .serve r =>
      match s.pc with
      | .scan i =>
          if i ≤ s.maxi ∧ s.ready i = true ∧ r.Possible then some (s.visit i r) else none
      | _ => none
  | .endScan =>
      match s.pc with
      | .scan i => if s.maxi < i then some { s with pc := .select } else none
      | _ => none

def Step (s : State) (act : Action) (s' : State) : Prop := s.step act = some s'

end UnixProgramming.SelectServer
