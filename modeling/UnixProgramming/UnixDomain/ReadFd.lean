import UnixProgramming.Library.CMemory
import UnixProgramming.Library.Fallible

/-!
# `write_fd` and `read_fd` of the Unix domain examples

A descriptor travels in the control part of a message with at least one byte of data. `read_fd`
gives its caller the bytes and the descriptor as they have arrived. But its `n` is the value of
the comparison with 0, so it returns 0 behind a message and 1 behind a failure. `my_open` does not
look at the value.
-/

namespace UnixProgramming.UnixDomain

open CMemory Fallible

/-- `CMSG_LEN(sizeof(int))`. -/
def CMSG_LEN : Nat := 20

def SOL_SOCKET : Int := 1

def SCM_RIGHTS : Int := 1

/-- A control header with the `int` at its `CMSG_DATA`. -/
structure Cmsghdr where
  len : Nat
  level : Int
  type : Int
  data : Int
  deriving DecidableEq

structure Message where
  data : Block
  control : Cmsghdr
  deriving DecidableEq

/-- What `recvmsg` comes to with `nbytes` of room: an error, or the bytes with the first control
header, if there is one. At the end of the stream there are no bytes. -/
inductive Recvmsg (nbytes : Nat)
  | failed (n : Int) (negative : n < 0)
  | received (data : Block) (fits : data.length ≤ nbytes) (control : Option Cmsghdr)

/-- `err_quit`. -/
inductive Stop
  | exit
  deriving DecidableEq

namespace Recvmsg

variable {nbytes : Nat}

/-- The value of `recvmsg`. -/
def result : Recvmsg nbytes → Int
  | failed n _ => n
  | received data _ _ => data.length

def data : Recvmsg nbytes → Block
  | failed _ _ => []
  | received data _ _ => data

def control : Recvmsg nbytes → Option Cmsghdr
  | failed _ _ => none
  | received _ _ control => control

/-- The descriptor that has arrived with data. -/
def passed (o : Recvmsg nbytes) : Option Int :=
  if o.result ≤ 0 then none
  else (o.control.filter fun cm => cm.len = CMSG_LEN).map Cmsghdr.data

/-- A header of the expected length is one that passes descriptors. -/
def Plain (o : Recvmsg nbytes) : Prop :=
  ∀ cm, o.control = some cm → cm.len = CMSG_LEN → cm.level = SOL_SOCKET ∧ cm.type = SCM_RIGHTS

end Recvmsg

/-- The value and the message. `sent` is the value of `sendmsg`, if it does not fail. `Sendmsg` says
so if it does, and returns. -/
def writeFd (ptr : Block) (sendfd : Int) (sent : Option Nat) : Int × Option Message :=
  match sent with
  | none => (-1, none)
  | some n => (n, some ⟨ptr.take n, ⟨CMSG_LEN, SOL_SOCKET, SCM_RIGHTS, sendfd⟩⟩)

/-- The kernel gives the peer a descriptor of its own. -/
def deliver {nbytes : Nat} (m : Message) (newfd : Int) (fits : m.data.length ≤ nbytes) :
    Recvmsg nbytes :=
  .received m.data fits
    (if m.control.level = SOL_SOCKET ∧ m.control.type = SCM_RIGHTS
      then some { m.control with data := newfd } else none)

/-- The value, what is at `ptr`, and `*recvfd`. -/
def readFd (ptr : Block) (recvfd : Int) (o : Recvmsg ptr.length) :
    Except Stop (Int × Block × Int) :=
  let ptr := fill ptr o.data
  -- `n = recvmsg(fd, &msg, 0) <= 0`
  let n : Int := if o.result ≤ 0 then 1 else 0
  if n ≠ 0 then return (n, ptr, recvfd)
  else
    match o.control with
    | none => return (n, ptr, -1)
    | some cm =>
        if cm.len = CMSG_LEN then
          if cm.level ≠ SOL_SOCKET then .error .exit
          else if cm.type ≠ SCM_RIGHTS then .error .exit
          else return (n, ptr, cm.data)
        else return (n, ptr, -1)

/-- `WEXITSTATUS`. -/
def wexitstatus (status : UInt32) : Nat := status.toNat / 256 % 256

/-- The parent of `my_open` behind `waitpid`. -/
def myOpen (status : UInt32) (c : UInt8) (o : Recvmsg 1) : Except Stop Int :=
  if wexitstatus status = 0 then do
    let (_, _, fd) ← readFd [c] (-1) o
    return fd
  else return -1

section Values

variable {ptr : Block}

/-- The bytes and the descriptor are what has arrived, and the value is that of the comparison. -/
theorem readFd_eq {o : Recvmsg ptr.length} (plain : o.Plain) (recvfd : Int) :
    readFd ptr recvfd o = .ok (if o.result ≤ 0 then 1 else 0, fill ptr o.data,
      if o.result ≤ 0 then recvfd else o.passed.getD (-1)) := by
  rw [readFd]
  by_cases ended : o.result ≤ 0
  · simp only [if_pos ended]
    rfl
  · simp only [if_neg ended, Recvmsg.passed]
    cases control : o.control with
    | none => rfl
    | some cm =>
        by_cases len : cm.len = CMSG_LEN
        · obtain ⟨level, type⟩ := plain cm control len
          simp [Option.filter, len, level, type]
        · simp [Option.filter, len]

theorem readFd_value {o : Recvmsg ptr.length} {recvfd n fd : Int} {stored : Block}
    (run : readFd ptr recvfd o = .ok (n, stored, fd)) : n = if o.result ≤ 0 then 1 else 0 := by
  rw [readFd] at run
  by_cases ended : o.result ≤ 0
  · simp only [if_pos ended] at run ⊢
    cases run
    rfl
  · simp only [if_neg ended] at run ⊢
    rw [if_neg (not_not.mpr rfl)] at run
    split at run
    case h_1 =>
      cases run
      rfl
    case h_2 cm given =>
      split at run
      case isTrue =>
        split at run
        case isTrue => cases run
        case isFalse =>
          split at run <;> cases run
          rfl
      case isFalse =>
        cases run
        rfl

/-- No value is the one of `recvmsg`. -/
theorem readFd_ne {o : Recvmsg ptr.length} {recvfd n fd : Int} {stored : Block}
    (run : readFd ptr recvfd o = .ok (n, stored, fd)) : n ≠ o.result := by
  rw [readFd_value run]
  split <;> omega

/-- `my_open` gives back a descriptor exactly where one was passed. -/
theorem myOpen_eq {o : Recvmsg 1} (plain : o.Plain) (status : UInt32) (c : UInt8) :
    myOpen status c o = .ok (if wexitstatus status = 0 then o.passed.getD (-1) else -1) := by
  rw [myOpen]
  split
  case isTrue =>
    have run : readFd [c] (-1) o = .ok (if o.result ≤ 0 then 1 else 0, fill [c] o.data,
        if o.result ≤ 0 then -1 else o.passed.getD (-1)) := readFd_eq plain (-1)
    rw [run, ok_bind]
    by_cases ended : o.result ≤ 0
    · simp [ended, Recvmsg.passed]
    · simp [ended]
  case isFalse => rfl

end Values

/-- The value is the one of `recvmsg`, and what has arrived is at `ptr` and in `*recvfd`. -/
def ReadRight (ptr : Block) (recvfd : Int) (o : Recvmsg ptr.length) : Prop :=
  ∃ fd, readFd ptr recvfd o = .ok (o.result, fill ptr o.data, fd) ∧
    (0 < o.result → fd = o.passed.getD (-1))

/-- The peer of one `write_fd` reads its bytes and a descriptor, and it gets their count. -/
def TransferRight (block ptr : Block) (sendfd : Int) (sent : Nat) (recvfd newfd : Int) : Prop :=
  ∃ m, writeFd block sendfd (some sent) = ((sent : Int), some m) ∧
    ∃ fits, readFd ptr recvfd (deliver m newfd fits) =
      .ok ((m.data.length : Int), fill ptr m.data, newfd)

/-- All that is wrong with a transfer is the value. -/
theorem transfer_eq {block ptr : Block} {sent : Nat} (positive : 0 < sent)
    (inside : sent ≤ block.length) (room : block.length ≤ ptr.length) (sendfd recvfd newfd : Int) :
    ∃ m fits, writeFd block sendfd (some sent) = ((sent : Int), some m) ∧
      readFd ptr recvfd (deliver m newfd fits) = .ok (0, fill ptr (block.take sent), newfd) := by
  have length : (block.take sent).length = sent := List.length_take_of_le inside
  have fits : (block.take sent).length ≤ ptr.length := by omega
  refine ⟨⟨block.take sent, ⟨CMSG_LEN, SOL_SOCKET, SCM_RIGHTS, sendfd⟩⟩, fits, rfl, ?_⟩
  rw [readFd_eq]
  · have more : ¬ ((block.take sent).length : Int) ≤ 0 := by omega
    rw [Recvmsg.passed]
    simp only [deliver, Recvmsg.result, if_neg more]
    rfl
  · intro cm control len
    cases control
    exact ⟨rfl, rfl⟩

/-- The value of `read_fd` is never the count or the error of `recvmsg`, so no transfer is as it
should be either. -/
theorem readFd_never_right (ptr : Block) (recvfd : Int) (o : Recvmsg ptr.length) :
    ¬ ReadRight ptr recvfd o ∧
      ∀ block sendfd sent newfd, ¬ TransferRight block ptr sendfd sent recvfd newfd := by
  constructor
  · rintro ⟨fd, run, -⟩
    exact readFd_ne run rfl
  · rintro block sendfd sent newfd ⟨m, -, fits, run⟩
    exact readFd_ne run rfl

/-- One byte and the descriptor 5 are sent. They arrive, and `read_fd` returns 0. -/
theorem readFd_one_byte :
    writeFd [0] 5 (some 1) = (1, some ⟨[0], ⟨CMSG_LEN, SOL_SOCKET, SCM_RIGHTS, 5⟩⟩) ∧
      readFd [170] (-1) (deliver ⟨[0], ⟨CMSG_LEN, SOL_SOCKET, SCM_RIGHTS, 5⟩⟩ 7 (by decide)) =
        .ok (0, [0], 7) ∧
      ¬ TransferRight [0] [170] 5 1 (-1) 7 := by
  refine ⟨rfl, rfl, ?_⟩
  rintro ⟨m, -, fits, run⟩
  exact readFd_ne run rfl

end UnixProgramming.UnixDomain
