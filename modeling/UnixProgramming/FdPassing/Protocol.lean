import UnixProgramming.Library.CMemory
import UnixProgramming.Library.Fallible

/-!
# `send_fd` and `recv_fd` of `apue.c`

A message is a run of text bytes, a NUL byte and a status byte, and a descriptor
travels as ancillary data of the two protocol bytes. The receiver keeps its status
and its descriptor across calls of `recvmsg`. What the two print is left out, but one of the
lines prints three bytes of a buffer that has one.
-/

namespace UnixProgramming.FdPassing

open CMemory Fallible

/-- `MAXLINE` of `apue.h`, the size of the receive buffer. -/
def MAXLINE : Nat := 1

/-- What a successful `sendmsg` puts on the socket: bytes and an `SCM_RIGHTS` descriptor. -/
structure Message where
  bytes : List UInt8
  fd : Option Int
  deriving DecidableEq

/-- `(cmsghdr_p == NULL) && ((cmsghdr_p = malloc(CONTROLLEN)) == NULL)` fails with `none`.
A buffer is the `int` that its `CMSG_DATA` holds. -/
def allocCmsghdr (cmsghdr malloc : Option Int) : Option Int := cmsghdr <|> malloc

/-- The status byte for a negative `fd_to_send`, cut to a `char`. -/
def statusByte (fdToSend : Int) : UInt8 :=
  let status := UInt8.ofNat (-fdToSend).toNat
  if status = 0 then 1 else status

/-- The return value, the message on the socket and the static buffer. `sent` is the
result of `sendmsg`. -/
def sendFd (cmsghdr malloc : Option Int) (fdToSend sent : Int) :
    Int × Option Message × Option Int :=
  let send (message : Message) (cmsghdr : Option Int) : Int × Option Message × Option Int :=
    if sent ≠ 2 then (-1, none, cmsghdr) else (0, some message, cmsghdr)
  if fdToSend < 0 then
    send ⟨[0, statusByte fdToSend], none⟩ cmsghdr
  else
    match allocCmsghdr cmsghdr malloc with
    | none => (-1, none, none)
    | some _ => send ⟨[0, 0], some fdToSend⟩ (some fdToSend)

/-- The result of one `recvmsg`. No bytes mean that the peer has closed the connection. -/
inductive RecvResult
  | fail
  | data (bytes : List UInt8) (fd : Option Int)

/-- How `recv_fd` ends. `err_ret` expands to a `return` without a value, and a call for
which no further result comes stays blocked in `recvmsg`. -/
inductive Outcome
  | value (v : Int)
  | noValue
  | blocked
  | fault (f : Fault)
  deriving DecidableEq

/-- The locals that live across calls of `recvmsg`, and those that the parse changes. -/
structure Locals where
  status : Int
  newfd : Int
  nr : Int

/-- The parse of one buffer, `for (ptr = buf; ptr < &buf[nr]; )`. The pointer moves on in
each iteration and `nr` never grows, so `bound` iterations suffice from `ptr = nr - bound`. -/
def parse (buf : Block) (fd : Option Int) (cmsgData : Int) :
    (bound ptr : Nat) → Locals → Except Outcome Locals
  | 0, _, l => .ok l
  | bound + 1, ptr, l =>
      if (ptr : Int) < l.nr then
        match load buf ptr with
        | .error f => .error (.fault f)
        | .ok c =>
            if c = 0 then
              if ((ptr + 1 : Nat) : Int) ≠ l.nr - 1 then .error .noValue
              else
                match load buf (ptr + 1) with
                | .error f => .error (.fault f)
                | .ok status =>
                    if status = 0 then
                      -- `msg.msg_controllen < CONTROLLEN`
                      if fd = none then .error .noValue
                      else parse buf fd cmsgData bound (ptr + 1) ⟨0, cmsgData, l.nr - 2⟩
                    else
                      parse buf fd cmsgData bound (ptr + 1)
                        ⟨status.toNat, -status.toNat, l.nr - 2⟩
            else parse buf fd cmsgData bound (ptr + 1) l
      else .ok l

/-- `buf[0], buf[1], buf[2]` of the line that prints the buffer. -/
def buffPrint (buf : Block) : Except Fault (List UInt8) := [0, 1, 2].mapM (load buf)

/-- The outcome, the buffers that the callback was given, and whether a line has printed bytes from
behind the end of `buf`. That is undefined. Nothing but the line depends on the bytes, and the run
goes on as it does on a machine where they can be read. -/
structure RecvRun where
  outcome : Outcome
  passed : List Block
  overread : Bool
  deriving DecidableEq

/-- The loop over the results of `recvmsg`. The kernel stores a descriptor that comes with
a result in the static buffer, which keeps its last one. -/
def recvFdLoop (userfunc : Block → Int) (malloc : Option Int) :
    (cmsghdr : Option Int) → (buf : Block) → (status newfd : Int) → (passed : List Block) →
      (overread : Bool) → List RecvResult → RecvRun
  | cmsghdr, buf, status, newfd, passed, overread, results =>
      match allocCmsghdr cmsghdr malloc with
      | none => ⟨.value (-1), passed, overread⟩
      | some old =>
          match results with
          | [] => ⟨.blocked, passed, overread⟩
          | .fail :: _ => ⟨.noValue, passed, overread⟩
          | .data [] _ :: _ => ⟨.noValue, passed, overread⟩
          | .data (b :: bytes) fd :: results =>
              let buf := fill buf (b :: bytes)
              let overread := overread || !(buffPrint buf).isOk
              let cmsgData := fd.getD old
              let nr := (b :: bytes).length
              match parse buf fd cmsgData nr 0 ⟨status, newfd, nr⟩ with
              | .error outcome => ⟨outcome, passed, overread⟩
              | .ok l =>
                  let text := buf.take l.nr.toNat
                  if 0 < l.nr ∧ userfunc text ≠ l.nr then
                    ⟨.value (-1), passed ++ [text], overread⟩
                  else
                    let passed := if 0 < l.nr then passed ++ [text] else passed
                    if 0 < l.status then ⟨.value l.newfd, passed, overread⟩
                    else
                      recvFdLoop userfunc malloc (some cmsgData) buf l.status l.newfd passed
                        overread results

/-- `newfd` is not initialised in the source. -/
def recvFd (userfunc : Block → Int) (cmsghdr malloc : Option Int) (newfd : Int)
    (results : List RecvResult) : RecvRun :=
  recvFdLoop userfunc malloc cmsghdr (List.replicate MAXLINE 128) (-1) newfd [] false results

end UnixProgramming.FdPassing
