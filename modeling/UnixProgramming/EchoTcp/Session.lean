import UnixProgramming.Library.Pipe
import UnixProgramming.Library.Transition

/-!
# `str_cli_v4` and `str_echo` on one connection

Two processes run system call by system call, in any order. The environment
chooses what `select` reports, how many bytes each call moves, and which bytes
stand in memory behind the client's `sendline` when `strlen` runs over its end.
There are no failed calls. What the server and both `main` print is left out. The
server's log line reads `buff` as a string: where no NUL is in it, that is a read
behind its end, and only runs without it are spoken of (`Terminated`).
-/

namespace UnixProgramming.EchoTcp

open CMemory

/-- `MAXLINE` of `util.h`, the size of the three buffers. -/
def MAXLINE : Nat := 512

/-- `LOG_I("normal exit")` prints to standard output, and so does the `err_quit`. -/
def normalExitLine : Block := ascii "[I] normal exit\r\n"

def prematureLine : Block := ascii "client:server terminated prematurely\r\n"

/-- Where the client is. `stdin` says whether `select` reported standard input, and `rest`
what a `Writen` still has to write. -/
inductive ClientPc
  | select
  | readSocket (stdin : Bool)
  | writeStdout (rest : List UInt8) (stdin : Bool)
  | readStdin
  | writeSocket (rest : List UInt8)
  | normalExit
  | terminatedPrematurely
  deriving DecidableEq

structure Client where
  pc : ClientPc
  sendline : Block
  recvline : Block
  stdinEof : Bool
  stdin : Pipe
  stdout : List UInt8

inductive ServerPc
  | read
  | write (rest : List UInt8)
  | closed
  deriving DecidableEq

structure Server where
  pc : ServerPc
  buff : Block

/-- Both processes and the two directions of the connection. -/
structure Session where
  client : Client
  server : Server
  toServer : Pipe
  toClient : Pipe

/-- One system call of one process, with the choices of the environment. -/
inductive Action
  | select (socket stdin : Bool)
  | readSocket (n : Nat)
  | writeStdout (k : Nat)
  | readStdin (n : Nat) (beyond : Block)
  | writeSocket (k : Nat)
  | serverRead (n : Nat)
  | serverWrite (k : Nat)
  deriving DecidableEq

namespace ClientPc

/-- Behind the socket part of the loop: `FD_ISSET(fileno(fp), &rset)`. -/
def afterSocket (stdin : Bool) : ClientPc := if stdin then readStdin else select

/-- `while (nleft > 0)` of the `Writen` to standard output. -/
def writenStdout (rest : List UInt8) (stdin : Bool) : ClientPc :=
  if rest = [] then afterSocket stdin else writeStdout rest stdin

/-- `while (nleft > 0)` of the `Writen` to the socket. -/
def writenSocket (rest : List UInt8) : ClientPc :=
  if rest = [] then select else writeSocket rest

end ClientPc

namespace Session

/-- The buffers are not initialised and hold anything. -/
def init (input : List UInt8) (sendline recvline buff : Block) : Session where
  client := ⟨.select, sendline, recvline, false, ⟨input, true⟩, []⟩
  server := ⟨.read, buff⟩
  toServer := ⟨[], false⟩
  toClient := ⟨[], false⟩

def select (s : Session) (socket stdin : Bool) : Option Session :=
  if s.client.pc = .select ∧ (socket = true ∨ stdin = true) ∧
      (stdin = true → s.client.stdinEof = false) ∧ (socket = true → s.toClient.Ready) then
    some { s with client := { s.client with
      pc := if socket then .readSocket stdin else .readStdin } }
  else none

def readSocket (s : Session) (n : Nat) : Option Session :=
  match s.client.pc with
  | .readSocket stdin => do
      let (bytes, toClient) ← s.toClient.read MAXLINE n
      if bytes = [] then
        if s.client.stdinEof then
          return { s with toClient, client := { s.client with
            pc := .normalExit, stdout := s.client.stdout ++ normalExitLine } }
        else
          return { s with toClient, client := { s.client with
            pc := .terminatedPrematurely, stdout := s.client.stdout ++ prematureLine } }
      else
        let recvline := fill s.client.recvline bytes
        let pc := ClientPc.writenStdout (recvline.take bytes.length) stdin
        return { s with toClient, client := { s.client with recvline, pc } }
  | _ => none

def writeStdout (s : Session) (k : Nat) : Option Session :=
  match s.client.pc with
  | .writeStdout rest stdin => do
      let (out, rest) ← Pipe.writeSome rest k
      return { s with client := { s.client with
        stdout := s.client.stdout ++ out, pc := ClientPc.writenStdout rest stdin } }
  | _ => none

def readStdin (s : Session) (n : Nat) (beyond : Block) : Option Session :=
  match s.client.pc with
  | .readStdin => do
      let (bytes, stdin) ← s.client.stdin.read MAXLINE n
      if bytes = [] then
        -- `shutdown(socketfd, SHUT_WR)` sends the FIN
        return { s with
          toServer := s.toServer.close
          client := { s.client with stdin, stdinEof := true, pc := .select } }
      else
        let sendline := fill s.client.sendline bytes
        let memory := sendline ++ beyond
        return { s with client := { s.client with
          stdin, sendline, pc := ClientPc.writenSocket (memory.take (strlen memory)) } }
  | _ => none

def writeSocket (s : Session) (k : Nat) : Option Session :=
  match s.client.pc with
  | .writeSocket rest => do
      let (out, rest) ← Pipe.writeSome rest k
      return { s with
        toServer := s.toServer.write out
        client := { s.client with pc := ClientPc.writenSocket rest } }
  | _ => none

/-- At end of file `str_echo` returns and its caller closes the connection. -/
def serverRead (s : Session) (n : Nat) : Option Session :=
  match s.server.pc with
  | .read => do
      let (bytes, toServer) ← s.toServer.read MAXLINE n
      if bytes = [] then
        return { s with
          toServer, toClient := s.toClient.close, server := { s.server with pc := .closed } }
      else
        let buff := fill s.server.buff bytes
        return { s with toServer, server := ⟨.write (buff.take bytes.length), buff⟩ }
  | _ => none

/-- The `memset` after the `Writen` clears the buffer. -/
def serverWrite (s : Session) (k : Nat) : Option Session :=
  match s.server.pc with
  | .write rest => do
      let (out, rest) ← Pipe.writeSome rest k
      let server : Server :=
        if rest = [] then ⟨.read, List.replicate MAXLINE 0⟩ else ⟨.write rest, s.server.buff⟩
      return { s with toClient := s.toClient.write out, server }
  | _ => none

def step (s : Session) : Action → Option Session
  | .select socket stdin => s.select socket stdin
  | .readSocket n => s.readSocket n
  | .writeStdout k => s.writeStdout k
  | .readStdin n beyond => s.readStdin n beyond
  | .writeSocket k => s.writeSocket k
  | .serverRead n => s.serverRead n
  | .serverWrite k => s.serverWrite k

end Session

/-- One system call of either process. -/
def Step (s : Session) (act : Action) (s' : Session) : Prop := s.step act = some s'

end UnixProgramming.EchoTcp
