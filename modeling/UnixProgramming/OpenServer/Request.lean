import UnixProgramming.Library.Strtok

/-!
# Requests of `open_client_v1.c` and their decoding in `open_server_v1.c`

The client writes `open <pathname> <oflag>` and a NUL. The server splits the buffer
in place, so its pointers are positions in the buffer. `errmsg` is modelled as the
text stored from its address on: `MAXLINE` is 1, and the `strcpy` of the usage text
runs over the end of the array. So does the line on `stderr` that prints a request
without a NUL. Both are noted, and the model goes on as a machine does on which there
is memory. What is printed on `stderr` is left out, but what `send_fd` prints on `stdout`
is not: the stream to the client is descriptor 1. That `sendmsg` or the allocation in
`send_fd` fails is left out.
-/

namespace UnixProgramming.OpenServer

open CMemory Fallible Strtok

/-- `MAXLINE` of `apue.h`. -/
def MAXLINE : Nat := 1

def MAXARGCNUM : Nat := 50

/-- `"\t\n"`. -/
def WHITE : List UInt8 := [9, 10]

def CL_OPEN : Block := ascii "open"

/-- The three parts that `cs_open` gives to `writev`: the string constant with its space, the
name without its NUL, and the flag with its NUL. That `sprintf` runs over its ten bytes on
flags of more than eight digits is left out. -/
def csOpenRequest (name : Block) (oflag : Int) : Block :=
  (CL_OPEN ++ ascii " ") ++ cString name ++ (ascii " " ++ decimal oflag ++ [0])

/-- What goes out on the stream to the client: the text of an error, the two bytes of `send_fd`
with a status or a descriptor, and what comes out of the buffer of `stdout`. -/
inductive Sent
  | text (msg : Block)
  | status (errcode : Int)
  | descriptor (fd : Int)
  | printed (text : Block)
  deriving DecidableEq

/-- `stdout` with its buffer, which is written when it runs over. -/
structure Stdout where
  size : Nat
  pending : Block
  pos : 0 < size
  fits : pending.length ≤ size

/-- Whole buffers are written, and the rest of the text stays. -/
def Stdout.printf (out : Stdout) (text : Block) : List Sent × Stdout :=
  let all := out.pending ++ text
  if fits : all.length ≤ out.size then ([], ⟨out.size, all, out.pos, fits⟩)
  else
    let written := out.size * (all.length / out.size)
    have rest : (all.drop written).length ≤ out.size := by
      rw [List.length_drop, ← Nat.mod_eq_sub_mul_div]
      exact (Nat.mod_lt _ out.pos).le
    ([.printed (all.take written)], ⟨out.size, all.drop written, out.pos, rest⟩)

/-- The global variables of the server, `stdout`, and whether an access has gone over the end of
`errmsg` or of a request. `pathname` points into the request buffer. -/
structure Globals where
  errmsg : Block
  oflag : Int
  pathname : Option Nat
  stdout : Stdout
  outside : Bool

def Globals.note (g : Globals) (outside : Bool) : Globals :=
  { g with outside := g.outside || outside }

/-- The address of the request buffer, and what `open` answers: a descriptor, or the
`strerror` text of its failure. -/
structure Env where
  bufAddress : Nat
  fileOpen : Block → Int → Except Block Int

/-- Dereference a pointer into the buffer that may be unset. -/
def deref (p : Option Nat) : Except Fault Nat :=
  match p with
  | some off => .ok off
  | none => .error .nullPointer

/-- A pointer into the buffer, cut to an `int`. -/
def Env.pointerInt (env : Env) (off : Nat) : Int :=
  (BitVec.ofNat 32 (env.bufAddress + off)).toInt

def snprintf (s : Block) (size : Nat) (text : Block) : Block :=
  if size = 0 then s else fill s (text.take (size - 1) ++ [0])

def strcpy (s text : Block) : Block := fill s (text ++ [0])

def usage : Block := ascii "usage: <pathname> <oflag>\n"

/-- The `strcpy` of a text to `errmsg`, with its NUL. -/
def Globals.setErrmsg (g : Globals) (text : Block) : Globals :=
  { g.note (MAXLINE < (text ++ [0]).length) with errmsg := strcpy g.errmsg text }

/-- `oflag = argv[2]` stores the pointer, not the number in its text. -/
def cliArgs (env : Env) (buf : Block) (argc : Nat) (argv : List (Option Nat)) (g : Globals) :
    Except Fault (Int × Globals) := do
  let bad := (-1, g.setErrmsg usage)
  if argc ≠ 3 then
    return bad
  else
    let arg0 ← deref (← load argv 0)
    if cString (buf.drop arg0) ≠ CL_OPEN then
      return bad
    else
      let pathname ← load argv 1
      let oflag ← deref (← load argv 2)
      return (0, { g with pathname, oflag := env.pointerInt oflag })

/-- What is left of the buffer, and the arguments for `optfunc`, or `return (-1)`. -/
structure Tokens where
  buf : Block
  args : Option (Nat × List (Option Nat))

/-- The loop of `buf_args`, which counts `argc` up twice for every token. -/
def bufArgsLoop (buf : Block) (save argc : Nat) (argv : List (Option Nat)) :
    Except Fault Tokens :=
  match strtok WHITE buf save with
  | .error f => .error f
  | .ok ⟨none, buf, _⟩ => .ok ⟨buf, some (argc, argv)⟩
  | .ok ⟨some ptr, buf, save⟩ =>
      if MAXARGCNUM - 1 ≤ argc + 1 then .ok ⟨buf, none⟩
      else
        match store argv (argc + 2) (some ptr) with
        | .error f => .error f
        | .ok argv => bufArgsLoop buf save (argc + 2) argv
termination_by MAXARGCNUM - argc
decreasing_by simp [MAXARGCNUM] at *; omega

/-- `argv` is not initialised, and its first entry is the buffer itself. -/
def tokenize (buf : Block) : Except Fault Tokens := do
  let first ← strtok WHITE buf 0
  match first.token with
  | none => return ⟨first.buf, none⟩
  | some _ =>
      let argv ← store (List.replicate MAXARGCNUM none) 0 (some 0)
      bufArgsLoop first.buf first.save 0 argv

/-- `buf_args(buf, cli_args)`: its value, the buffer and the globals. -/
def bufArgs (env : Env) (buf : Block) (g : Globals) : Except Fault (Int × Block × Globals) := do
  let tokens ← tokenize buf
  match tokens.args with
  | none => return (-1, tokens.buf, g)
  | some (argc, argv) =>
      let (ret, g) ← cliArgs env tokens.buf argc argv g
      return (ret, tokens.buf, g)

inductive Reply
  | err (errcode : Int) (msg : Block)
  | descriptor (fd : Int)

/-- The bytes of a reply. -/
def Reply.items : Reply → List Sent
  | .err errcode msg => (if msg = [] then [] else [.text msg]) ++ [.status errcode]
  | .descriptor fd => [.descriptor fd]

/-- `buf[1] = -fd_to_send`, as a `char` that is not 0. -/
def statusChar (errcode : Int) : Int :=
  let status := (-errcode).bmod 256
  if status = 0 then 1 else status

/-- `printf("send 2 bytes [%d %d]\n", buf[0], buf[1]);` -/
def sendLine (status : Int) : Block := ascii "send 2 bytes [0 " ++ decimal status ++ ascii "]\n"

/-- `send_err`, and `send_fd` of a descriptor. -/
def Reply.send (out : Stdout) : Reply → List Sent × Stdout
  | .err errcode msg =>
      let (before, out) :=
        out.printf (ascii "error fd_to_send:" ++ decimal errcode ++ ascii "\n")
      let (behind, out) := out.printf (sendLine (statusChar errcode))
      ((if msg = [] then [] else [.text msg]) ++ before ++ [.status errcode] ++ behind, out)
  | .descriptor fd =>
      let (behind, out) := out.printf (sendLine 0)
      ([.descriptor fd] ++ behind, out)

/-- The reply of one call, what goes out for it, the call of `open` in it, and the globals it
leaves. -/
structure Handled where
  reply : Reply
  sent : List Sent
  opened : Option (Block × Int)
  globals : Globals

/-- The end of a call. -/
def Globals.respond (g : Globals) (reply : Reply) (opened : Option (Block × Int)) : Handled :=
  ⟨reply, (reply.send g.stdout).1, opened, { g with stdout := (reply.send g.stdout).2 }⟩

/-- `"%*.*s"` with `nread` as width and precision. -/
def padded (nread : Nat) (buf : Block) : Block :=
  let text := (cString buf).take nread
  List.replicate (nread - text.length) 32 ++ text

def handleRequest (env : Env) (buf : Block) (nread : Nat) (g : Globals) :
    Except Fault Handled := do
  -- `%s` of the line on `stderr`
  let g := g.note (0 ∉ buf)
  if (← load buf (nread - 1)) ≠ 0 then
    let errmsg := snprintf g.errmsg (MAXLINE - 1)
      (ascii "buf not null terminated:" ++ padded nread buf ++ ascii "\n")
    return { g with errmsg }.respond (.err (-1) (cString errmsg)) none
  else
    let (ret, buf, g) ← bufArgs env buf g
    if ret < 0 then
      return g.respond (.err (-1) (cString g.errmsg)) none
    else
      let path := cString (buf.drop (← deref g.pathname))
      match env.fileOpen path g.oflag with
      | .error strerror =>
          let errmsg := snprintf g.errmsg (MAXLINE - 1)
            (ascii "can't open " ++ path ++ ascii ":" ++ strerror)
          return { g with errmsg }.respond (.err (-1) (cString errmsg)) (some (path, g.oflag))
      | .ok newfd => return g.respond (.descriptor newfd) (some (path, g.oflag))

end UnixProgramming.OpenServer
