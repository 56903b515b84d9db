import UnixProgramming.Library.CString
import UnixProgramming.Library.DecimalText
import UnixProgramming.Library.DescriptorTable
import UnixProgramming.Library.Fallible

/-!
# The helpers that set up sockets

`serv_listen`, `serv_accept` and `cli_conn` of `apue.c`, and `init_server` and `init_server_v2` of
`network_ipc.c`. Each of them makes one socket and calls on with it. What the calls give back is
chosen outside, so the functions are about every way in which they can fail.
-/

namespace UnixProgramming.SocketSetup

open CMemory Fallible DescriptorTable

variable {ρ φ : Type}

inductive Errno
  | enametoolong
  | eaddrinuse
  | other (code : Nat)
  deriving DecidableEq

inductive HeapCall
  | malloc (p : Nat)
  | free (p : Nat)
  deriving DecidableEq

/-- What the calls change. `ρ` are the sockets that descriptors refer to, and `φ` are files. -/
structure World (ρ φ : Type) where
  fds : Table Nat ρ
  files : Block → Option φ
  heap : List HeapCall
  errno : Errno

/-- A new socket gets a descriptor that is not open. -/
structure NewSocket (fds : Table Nat ρ) where
  fd : Nat
  socket : ρ
  new : fds fd = none

/-- The file that `bind` creates is none of those that have a name. -/
structure NewFile (files : Block → Option φ) where
  file : φ
  new : ∀ path, files path ≠ some file

/-- The address for `bind`: the bytes of `sun_path` in its length, or one that is no path. -/
inductive Sockaddr
  | unix (path : Block)
  | other

/-- `sizeof(un.sun_path)`. -/
def SUN_PATH : Nat := 108

/-- `CLI_PATH`. -/
def cliPath : Block := ascii "./client_sock_"

namespace World

def failed (s : World ρ φ) (e : Errno) : World ρ φ := { s with errno := e }

/-- A call that only fails or not. -/
def called {α : Type} (s : World ρ φ) : Except Errno α → World ρ φ
  | .error e => s.failed e
  | .ok _ => s

def socket {t : Table Nat ρ} (s : World ρ φ) (new : NewSocket t) : World ρ φ :=
  { s with fds := s.fds.opened new.fd new.socket }

/-- The descriptor is released also when `close` reports an error. -/
def close (s : World ρ φ) (fd : Nat) (o : Except Errno Unit) : World ρ φ :=
  { s with fds := s.fds.close fd }.called o

def unlink (s : World ρ φ) (path : Block) : Except Errno Unit → World ρ φ
  | .error e => s.failed e
  | .ok () => { s with files := Function.update s.files path none }

/-- A path must be free, and it is the name of the file then. Without any byte the socket gets an
address that is no path. -/
def bind {files : Block → Option φ} (s : World ρ φ) (addr : Sockaddr) :
    Except Errno (NewFile files) → Except Errno (World ρ φ)
  | .error e => .error e
  | .ok new =>
      match addr with
      | .other => .ok s
      | .unix [] => .ok s
      | .unix path =>
          if (s.files path).isSome then .error .eaddrinuse
          else .ok { s with files := Function.update s.files path (some new.file) }

def malloc (s : World ρ φ) (p : Nat) : World ρ φ := { s with heap := s.heap ++ [.malloc p] }

def free (s : World ρ φ) (p : Nat) : World ρ φ := { s with heap := s.heap ++ [.free p] }

/-- `err = errno`, the calls of the label, and `errno = err`. -/
def errout (s : World ρ φ) (cleanup : World ρ φ → World ρ φ) : World ρ φ :=
  { cleanup s with errno := s.errno }

end World

/-- What the calls of `serv_listen` give back. -/
structure ListenCalls (s : World ρ φ) where
  socket : Except Errno (NewSocket s.fds)
  unlink : Except Errno Unit
  bind : Except Errno (NewFile s.files)
  listen : Except Errno Unit
  close : Except Errno Unit

def servListen (s : World ρ φ) (name : Block) (o : ListenCalls s) :
    Except Fault (Int × World ρ φ) := do
  if SUN_PATH ≤ strlen name then return (-1, s.failed .enametoolong)
  else
    match o.socket with
    | .error e => return (-2, s.failed e)
    | .ok new =>
        let s := (s.socket new).unlink (cString name) o.unlink
        -- `memset` and `strcpy`
        let sunPath ← storeRange (List.replicate SUN_PATH 0) 0 (cString name ++ [0])
        match s.bind (.unix (sunPath.take (strlen name))) o.bind with
        | .error e => return (-3, (s.failed e).errout (·.close new.fd o.close))
        | .ok s =>
            match o.listen with
            | .error e => return (-4, (s.failed e).errout (·.close new.fd o.close))
            | .ok () => return (new.fd, s)

/-- `accept` also gives the path of the caller, in the length of the whole address. -/
structure Accepted (fds : Table Nat ρ) extends NewSocket fds where
  sunPath : Vector UInt8 108
  len : UInt32

/-- What the calls of `serv_accept` give back. `garbage` is in the block of `malloc`. -/
structure AcceptCalls (s : World ρ φ) where
  malloc : Except Errno Nat
  garbage : Vector UInt8 109
  accept : Except Errno (Accepted s.fds)
  stat : Except Errno UInt32
  unlink : Except Errno Unit
  close : Except Errno Unit

/-- The value, what is at `uidptr`, and the state. -/
def servAccept (s : World ρ φ) (uidptr : Option UInt32) (o : AcceptCalls s) :
    Except Fault (Int × Option UInt32 × World ρ φ) := do
  match o.malloc with
  | .error e => return (-1, uidptr, s.failed e)
  | .ok p =>
      let s := s.malloc p
      match o.accept with
      | .error e => return (-2, uidptr, (s.failed e).free p)
      | .ok new =>
          let s := s.socket new.toNewSocket
          -- `offsetof(struct sockaddr_un, sun_path)` is 2
          let len := (new.len - 2).toNat
          let path ← loadRange new.sunPath.toList 0 len
          let addrPath ← storeRange o.garbage.toList 0 path
          let addrPath ← store addrPath len 0
          match o.stat with
          | .error e =>
              return (-3, uidptr, (s.failed e).errout fun s => (s.close new.fd o.close).free p)
          | .ok uid =>
              let s := s.unlink (cString addrPath) o.unlink
              return (new.fd, uidptr.map fun _ => uid, s.free p)

/-- What the calls of `cli_conn` give back. -/
structure ConnCalls (s : World ρ φ) where
  socket : Except Errno (NewSocket s.fds)
  getpid : Fin (2 ^ 31)
  unlink : Except Errno Unit
  bind : Except Errno (NewFile s.files)
  connect : Except Errno Unit
  close : Except Errno Unit
  unlinkBound : Except Errno Unit

/-- `"%05ld"` of a number that is not negative. -/
def fiveDigits (n : Nat) : Block := List.replicate (5 - (decimal n).length) 48 ++ decimal n

/-- `"%s%05ld.test"`. -/
def clientPath (pid : Nat) : Block := cliPath ++ fiveDigits pid ++ ascii ".test"

def cliConn (s : World ρ φ) (serverSockPath : Block) (o : ConnCalls s) :
    Except Fault (Int × World ρ φ) := do
  if SUN_PATH ≤ strlen serverSockPath then return (-1, s.failed .enametoolong)
  else
    match o.socket with
    | .error e => return (-1, s.failed e)
    | .ok new =>
        let s := s.socket new
        let sunPath ← storeRange (List.replicate SUN_PATH 0) 0 (clientPath o.getpid ++ [0])
        let s := s.unlink (cString sunPath) o.unlink
        match s.bind (.unix (sunPath.take (strlen sunPath))) o.bind with
        | .error e => return (-2, (s.failed e).errout (·.close new.fd o.close))
        | .ok s =>
            let _ ← storeRange (List.replicate SUN_PATH 0) 0 (cString serverSockPath ++ [0])
            match o.connect with
            | .error e =>
                -- `do_unlink` is set
                return (-4, (s.failed e).errout fun s =>
                  (s.close new.fd o.close).unlink (cString sunPath) o.unlinkBound)
            | .ok () => return (new.fd, s)

/-- What the calls of `init_server` and `init_server_v2` give back. -/
structure ServerCalls (s : World ρ φ) where
  socket : Except Errno (NewSocket s.fds)
  setsockopt : Except Errno Unit
  bind : Except Errno (NewFile s.files)
  listen : Except Errno Unit
  printf : Except Errno Unit
  close : Except Errno Unit

section Servers

variable {s₀ : World ρ φ}

/-- The label of both functions. -/
def serverErrout (s : World ρ φ) (fd : Nat) (o : ServerCalls s₀) : Int × World ρ φ :=
  (-1, (s.called o.printf).errout (·.close fd o.close))

/-- `SOCK_STREAM` and `SOCK_SEQPACKET` are 1 and 5. -/
def serverBind (s : World ρ φ) (fd : Nat) (type : Int) (addr : Sockaddr) (o : ServerCalls s₀) :
    Int × World ρ φ :=
  match s.bind addr o.bind with
  | .error e => serverErrout (s.failed e) fd o
  | .ok s =>
      if type = 1 ∨ type = 5 then
        match o.listen with
        | .error e => serverErrout (s.failed e) fd o
        | .ok () => (fd, s)
      else (fd, s)

end Servers

def initServer (s : World ρ φ) (type : Int) (addr : Sockaddr) (o : ServerCalls s) :
    Int × World ρ φ :=
  match o.socket with
  | .error e => (-1, (s.failed e).called o.printf)
  | .ok new => serverBind (s.socket new) new.fd type addr o

def initServerV2 (s : World ρ φ) (type : Int) (addr : Sockaddr) (o : ServerCalls s) :
    Int × World ρ φ :=
  match o.socket with
  | .error e => (-1, (s.failed e).called o.printf)
  | .ok new =>
      match o.setsockopt with
      | .error e => serverErrout ((s.socket new).failed e) new.fd o
      | .ok () => serverBind (s.socket new) new.fd type addr o

end UnixProgramming.SocketSetup
