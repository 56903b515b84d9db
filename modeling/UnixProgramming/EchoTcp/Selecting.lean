import UnixProgramming.EchoTcp.Dialog

/-!
# `str_cli_v3` and `str_echo` on one connection

The client waits with `select` for standard input and for the socket, and then calls `Fgets`. But
`select` looks at the descriptor, and `Fgets` at the buffer of the stream: what one `read` brings
behind the first line is no longer seen by `select`. The two processes run system call by system
call. No call fails, and no signal comes. A run ends where `str_cli_v3` does. What the server and
both `main` print is left out. The server's log line reads `buff` as a string, also where it has no
NUL in it: `Logged` says that it has one, and without it the server just goes on.
-/

namespace UnixProgramming.EchoTcp.Selecting

open CMemory Transition Unp

/-- `LOG_I("input finish,exit")` prints to standard output, and so does the `err_quit`. -/
def finishLine : Block := ascii "[I] input finish,exit\r\n"

def prematureLine : Block := ascii "client:server terminated prematurely\r\n"

/-- Where the client is. `stdin` says whether `select` has reported standard input too, `stored`
is what `readline_v1` has stored, and `rest` is what `Writen` still has to write. -/
inductive Pc
  | select
  | readline (stored : Block) (stdin : Bool)
  | fgets
  | writen (rest : Block)
  | returned
  | terminatedPrematurely
  deriving DecidableEq

/-- `stdin` is the descriptor, `stdio` what its stream has read behind the lines that `Fgets` has
returned. The last fields record all that came on standard input, these lines, and all that `Fputs`
has printed. -/
structure State where
  client : Pc
  stdin : Pipe
  stdio : Block
  stdout : Block
  server : Server
  toServer : Pipe
  toClient : Pipe
  arrived : Block
  lines : List Block
  shown : Block

inductive Action
  | arrive (bytes : Block)
  | eof
  | select
  | read (n : Nat)
  | fill (n : Nat)
  | fgets
  | writen (k : Nat)
  | serverRead (n : Nat)
  | serverWrite (k : Nat)
  deriving DecidableEq

/-- A step of the client or of the server. -/
def Action.own : Action → Bool
  | .arrive _ | .eof => false
  | .select | .read _ | .fill _ | .fgets | .writen _ | .serverRead _ | .serverWrite _ => true

namespace State

def init (buff : Block) : State where
  client := .select
  stdin := ⟨[], false⟩
  stdio := []
  stdout := []
  server := ⟨.read, buff⟩
  toServer := ⟨[], false⟩
  toClient := ⟨[], false⟩
  arrived := []
  lines := []
  shown := []

def arrive (s : State) (bytes : Block) : Option State :=
  if s.stdin.closed = true then none
  else some { s with stdin := s.stdin.write bytes, arrived := s.arrived ++ bytes }

def eof (s : State) : Option State :=
  if s.stdin.closed = true then none else some { s with stdin := s.stdin.close }

def select (s : State) : Option State :=
  if s.client = .select then
    if s.toClient.Ready then some { s with client := .readline [] (decide s.stdin.Ready) }
    else if s.stdin.Ready then some { s with client := .fgets }
    else none
  else none

/-- `Fputs` behind `readline_v1`, and `FD_ISSET(fileno(fp), &rset)`. -/
def fputs (s : State) (line : Block) (stdin : Bool) : State :=
  { s with
    stdout := s.stdout ++ cString (line ++ [0])
    shown := s.shown ++ cString (line ++ [0])
    client := if stdin then .fgets else .select }

/-- What `readline_v1` does with the bytes of one `read(fd, &c, 1)`. -/
def received (s : State) (stored bytes : Block) (stdin : Bool) : State :=
  if bytes = [] then
    if stored = [] then
      { s with client := .terminatedPrematurely, stdout := s.stdout ++ prematureLine }
    else s.fputs stored stdin
  else if bytes = [newline] ∨ (stored ++ bytes).length = room then
    s.fputs (stored ++ bytes) stdin
  else { s with client := .readline (stored ++ bytes) stdin }

def read (s : State) (n : Nat) : Option State :=
  match s.client with
  | .readline stored stdin => do
      let (bytes, toClient) ← s.toClient.read 1 n
      return { s with toClient }.received stored bytes stdin
  | _ => none

/-- `while (nleft > 0)` of the `Writen`. -/
def afterWrite (rest : Block) : Pc := if rest = [] then .select else .writen rest

/-- `Fgets` returns a line, and `Writen` is called with `strlen(sendline)`. -/
def line (s : State) (line : Block) : State :=
  { s with lines := s.lines ++ [line], client := afterWrite (cString (line ++ [0])) }

/-- The buffer holds all that `Fgets` asks for. -/
def HasLine (s : State) : Prop := newline ∈ s.stdio ∨ room ≤ s.stdio.length

instance (s : State) : Decidable s.HasLine :=
  inferInstanceAs (Decidable (newline ∈ s.stdio ∨ room ≤ s.stdio.length))

def fgets (s : State) : Option State :=
  if s.client = .fgets ∧ s.HasLine then
    some ({ s with stdio := dropLine room s.stdio }.line (takeLine room s.stdio))
  else none

/-- A `read` of `Fgets` into the buffer, which has room for `bufsiz` bytes. At the end of the
input `str_cli_v3` returns and `main` closes the socket. -/
def fill (bufsiz : Nat) (s : State) (n : Nat) : Option State :=
  if s.client = .fgets ∧ ¬ s.HasLine then do
    let (bytes, stdin) ← s.stdin.read bufsiz n
    if bytes = [] then
      if s.stdio = [] then
        return { s with
          stdin, client := .returned, toServer := s.toServer.close
          stdout := s.stdout ++ finishLine }
      else return { s with stdin, stdio := [] }.line s.stdio
    else return { s with stdin, stdio := s.stdio ++ bytes }
  else none

def writen (s : State) (k : Nat) : Option State :=
  match s.client with
  | .writen rest => do
      let (out, rest) ← Pipe.writeSome rest k
      return { s with toServer := s.toServer.write out, client := afterWrite rest }
  | _ => none

def serverRead (s : State) (n : Nat) : Option State :=
  match s.server.pc with
  | .read => do
      let (bytes, toServer) ← s.toServer.read EchoTcp.MAXLINE n
      if bytes = [] then
        return { s with
          toServer, toClient := s.toClient.close, server := { s.server with pc := .closed } }
      else
        let buff := CMemory.fill s.server.buff bytes
        return { s with toServer, server := ⟨.write (buff.take bytes.length), buff⟩ }
  | _ => none

def serverWrite (s : State) (k : Nat) : Option State :=
  match s.server.pc with
  | .write rest => do
      let (out, rest) ← Pipe.writeSome rest k
      let server : Server :=
        if rest = [] then ⟨.read, List.replicate EchoTcp.MAXLINE 0⟩
        else ⟨.write rest, s.server.buff⟩
      return { s with toClient := s.toClient.write out, server }
  | _ => none

def step (bufsiz : Nat) (s : State) (act : Action) : Option State :=
  if s.client = .returned ∨ s.client = .terminatedPrematurely then none
  else
    match act with
    | .arrive bytes => s.arrive bytes
    | .eof => s.eof
    | .select => s.select
    | .read n => s.read n
    | .fill n => s.fill bufsiz n
    | .fgets => s.fgets
    | .writen k => s.writen k
    | .serverRead n => s.serverRead n
    | .serverWrite k => s.serverWrite k

end State

def Step (bufsiz : Nat) (s : State) (act : Action) (s' : State) : Prop :=
  s.step bufsiz act = some s'

/-- The server's `buff` has a NUL in it when the log line prints it. -/
def Logged (s : State) : Action → Prop
  | .serverRead n => n ≠ 0 → 0 ∈ CMemory.fill s.server.buff (s.toServer.data.take n)
  | _ => True

instance (s : State) : DecidablePred (Logged s)
  | .serverRead n => inferInstanceAs
      (Decidable (n ≠ 0 → 0 ∈ CMemory.fill s.server.buff (s.toServer.data.take n)))
  | .arrive _ | .eof | .select | .read _ | .fill _ | .fgets | .writen _ | .serverWrite _ =>
      .isTrue trivial

variable {bufsiz : Nat} {s t s' : State} {act : Action} {as : List Action} {buff : Block}

/-! ## What a step can do -/

/-- Both directions of the connection are open. -/
structure Connected (s : State) : Prop where
  toServer : s.toServer.closed = false
  toClient : s.toClient.closed = false
  server : s.server.pc ≠ .closed

/-- What a step can do while the connection is open. -/
inductive Effect (s : State) : Action → State → Prop
  | arrive {bytes : Block} (more : s.stdin.closed = false) :
      Effect s (.arrive bytes)
        { s with stdin := s.stdin.write bytes, arrived := s.arrived ++ bytes }
  | eof : Effect s .eof { s with stdin := s.stdin.close }
  | readable (at_ : s.client = .select) (ready : s.toClient.data ≠ []) :
      Effect s .select { s with client := .readline [] (decide s.stdin.Ready) }
  | input (at_ : s.client = .select) (ready : s.stdin.Ready) :
      Effect s .select { s with client := .fgets }
  | store {n : Nat} {c : UInt8} {stored : Block} {stdin : Bool} {toClient : Pipe}
      (at_ : s.client = .readline stored stdin)
      (bytes : s.toClient.data = c :: toClient.data)
      (closed : toClient.closed = s.toClient.closed)
      (goesOn : ¬ (c = newline ∨ (stored ++ [c]).length = room)) :
      Effect s (.read n) { s with toClient, client := .readline (stored ++ [c]) stdin }
  | fputs {n : Nat} {c : UInt8} {stored : Block} {stdin : Bool} {toClient : Pipe}
      (at_ : s.client = .readline stored stdin)
      (bytes : s.toClient.data = c :: toClient.data)
      (closed : toClient.closed = s.toClient.closed)
      (ends : c = newline ∨ (stored ++ [c]).length = room) :
      Effect s (.read n) ({ s with toClient }.fputs (stored ++ [c]) stdin)
  | fill {n : Nat} {bytes : Block} {stdin : Pipe} (at_ : s.client = .fgets)
      (needs : ¬ s.HasLine) (some_ : bytes ≠ []) (moved : bytes ++ stdin.data = s.stdin.data)
      (closed : stdin.closed = s.stdin.closed) :
      Effect s (.fill n) { s with stdin, stdio := s.stdio ++ bytes }
  | line (at_ : s.client = .fgets) (hasLine : s.HasLine) :
      Effect s .fgets ({ s with stdio := dropLine room s.stdio }.line (takeLine room s.stdio))
  | last {n : Nat} (at_ : s.client = .fgets) (needs : ¬ s.HasLine) (some_ : s.stdio ≠ [])
      (empty : s.stdin.data = []) (closed : s.stdin.closed = true) :
      Effect s (.fill n) ({ s with stdio := [] }.line s.stdio)
  | finish {n : Nat} (at_ : s.client = .fgets) (none_ : s.stdio = [])
      (empty : s.stdin.data = []) (closed : s.stdin.closed = true) :
      Effect s (.fill n) { s with
        client := .returned, toServer := s.toServer.close, stdout := s.stdout ++ finishLine }
  | writen {k : Nat} {rest out left : Block} (at_ : s.client = .writen rest)
      (moved : out ++ left = rest) (some_ : out ≠ []) :
      Effect s (.writen k)
        { s with toServer := s.toServer.write out, client := State.afterWrite left }
  | serverRead {n : Nat} {bytes buff : Block} {toServer : Pipe} (at_ : s.server.pc = .read)
      (some_ : bytes ≠ []) (moved : bytes ++ toServer.data = s.toServer.data)
      (closed : toServer.closed = s.toServer.closed) :
      Effect s (.serverRead n) { s with toServer, server := ⟨.write bytes, buff⟩ }
  | serverWrite {k : Nat} {rest out left buff : Block} (at_ : s.server.pc = .write rest)
      (moved : out ++ left = rest) (some_ : out ≠ []) :
      Effect s (.serverWrite k) { s with
        toClient := s.toClient.write out
        server := ⟨if left = [] then .read else .write left, buff⟩ }

namespace Connected

theorem select (connected : Connected s) (h : s.select = some t) : Effect s .select t := by
  obtain ⟨at_, h⟩ := Option.ite_none_right_eq_some.mp h
  split at h
  · rename_i ready
    cases h
    obtain data | closed := ready
    · exact .readable at_ data
    · exact Bool.noConfusion (connected.toClient.symm.trans closed)
  · obtain ⟨ready, h⟩ := Option.ite_none_right_eq_some.mp h
    cases h
    exact .input at_ ready

theorem read {n : Nat} (connected : Connected s) (h : s.read n = some t) :
    Effect s (.read n) t := by
  unfold State.read at h
  split at h
  · rename_i stored stdin at_
    obtain ⟨⟨bytes, toClient⟩, some_, h⟩ := Option.bind_eq_some_iff.mp h
    have moved := Pipe.read_spec some_
    have more := moved.ne_nil connected.toClient
    obtain ⟨c, rfl⟩ : ∃ c, bytes = [c] := List.length_eq_one_iff.mp
      (le_antisymm (Pipe.length_le_of_read some_) (List.length_pos_iff.mpr more))
    simp only [State.received, if_neg more, List.singleton_inj] at h
    split at h
    · cases h
      exact .fputs at_ moved.stream.symm moved.closed ‹_›
    · cases h
      exact .store at_ moved.stream.symm moved.closed ‹_›
  · cases h

theorem fill {n : Nat} (h : s.fill bufsiz n = some t) : Effect s (.fill n) t := by
  obtain ⟨⟨at_, needs⟩, h⟩ := Option.ite_none_right_eq_some.mp h
  obtain ⟨⟨bytes, stdin⟩, some_, h⟩ := Option.bind_eq_some_iff.mp h
  have moved := Pipe.read_spec some_
  by_cases ending : bytes = []
  · subst ending
    obtain ⟨empty, closed⟩ := moved.atEnd rfl
    simp only [moved.unchanged, if_true] at h
    split at h
    · cases h
      exact .finish at_ ‹_› empty closed
    · cases h
      exact .last at_ needs ‹_› empty closed
  · simp only [if_neg ending] at h
    cases h
    exact .fill at_ needs ending moved.stream moved.closed

theorem writen {k : Nat} (h : s.writen k = some t) : Effect s (.writen k) t := by
  unfold State.writen at h
  split at h
  · rename_i rest at_
    obtain ⟨⟨out, left⟩, some_, h⟩ := Option.bind_eq_some_iff.mp h
    cases h
    exact .writen at_ (Pipe.writeSome_spec some_)
      (List.length_pos_iff.mp (Pipe.writeSome_pos some_))
  · cases h

theorem serverRead {n : Nat} (connected : Connected s) (h : s.serverRead n = some t) :
    Effect s (.serverRead n) t := by
  unfold State.serverRead at h
  split at h
  · rename_i at_
    obtain ⟨⟨bytes, toServer⟩, some_, h⟩ := Option.bind_eq_some_iff.mp h
    have moved := Pipe.read_spec some_
    have more := moved.ne_nil connected.toServer
    simp only [if_neg more, take_fill] at h
    cases h
    exact .serverRead at_ more moved.stream moved.closed
  · cases h

theorem serverWrite {k : Nat} (h : s.serverWrite k = some t) :
    Effect s (.serverWrite k) t := by
  unfold State.serverWrite at h
  split at h
  · rename_i rest at_
    obtain ⟨⟨out, left⟩, some_, h⟩ := Option.bind_eq_some_iff.mp h
    have effect (buff : Block) : Effect s (.serverWrite k) { s with
        toClient := s.toClient.write out
        server := ⟨if left = [] then .read else .write left, buff⟩ } :=
      .serverWrite at_ (Pipe.writeSome_spec some_)
        (List.length_pos_iff.mp (Pipe.writeSome_pos some_))
    cases h
    by_cases done : left = []
    · simpa only [if_pos done] using effect (List.replicate EchoTcp.MAXLINE 0)
    · simpa only [if_neg done] using effect s.server.buff
  · cases h

theorem effect (connected : Connected s) (h : Step bufsiz s act t) : Effect s act t := by
  obtain ⟨-, h⟩ := Option.ite_none_left_eq_some.mp h
  cases act with
  | arrive bytes =>
      obtain ⟨more, h⟩ := Option.ite_none_left_eq_some.mp h
      cases h
      exact .arrive (Bool.not_eq_true _ ▸ more)
  | eof =>
      obtain ⟨-, h⟩ := Option.ite_none_left_eq_some.mp h
      cases h
      exact .eof
  | select => exact connected.select h
  | read n => exact connected.read h
  | fill n => exact fill h
  | fgets =>
      obtain ⟨⟨at_, hasLine⟩, h⟩ := Option.ite_none_right_eq_some.mp h
      cases h
      exact .line at_ hasLine
  | writen k => exact writen h
  | serverRead n => exact connected.serverRead h
  | serverWrite k => exact serverWrite h

end Connected

/-! ## Where the bytes are -/

namespace Pc

def toSocket : Pc → Block
  | writen rest => rest
  | select | readline _ _ | fgets | returned | terminatedPrematurely => []

def stored : Pc → Block
  | readline stored _ => stored
  | select | fgets | writen _ | returned | terminatedPrematurely => []

/-- What is printed where `str_cli_v3` ends. -/
def lastLine : Pc → Block
  | returned => finishLine
  | terminatedPrematurely => prematureLine
  | select | readline _ _ | fgets | writen _ => []

end Pc

/-- The bytes between `Fgets` and `readline_v1`, from the socket back. -/
def State.flight (s : State) : Block :=
  s.toClient.data ++ (s.server.pc.toSocket ++ (s.toServer.data ++ s.client.toSocket))

theorem stored_afterWrite (rest : Block) : (State.afterWrite rest).stored = [] := by
  rw [State.afterWrite]
  split <;> rfl

theorem lastLine_afterWrite (rest : Block) : (State.afterWrite rest).lastLine = [] := by
  rw [State.afterWrite]
  split <;> rfl

theorem toSocket_afterWrite (rest : Block) : (State.afterWrite rest).toSocket = rest := by
  rw [State.afterWrite]
  split
  · rename_i done
    exact done.symm
  · rfl

theorem toSocket_afterServer (left : Block) :
    (if left = [] then ServerPc.read else .write left).toSocket = left := by
  split
  · rename_i done
    exact done.symm
  · rfl

/-- What came on standard input, and what the server is sent of it. -/
structure Bytes (s : State) : Prop where
  input : s.lines.flatten ++ (s.stdio ++ s.stdin.data) = s.arrived
  output : s.shown ++ (s.client.stored ++ s.flight) = (s.lines.map cString).flatten

namespace Bytes

theorem notMem_output (bytes : Bytes s) : 0 ∉ s.shown ++ (s.client.stored ++ s.flight) := by
  rw [bytes.output]
  intro mem
  obtain ⟨text, mem, inside⟩ := List.mem_flatten.mp mem
  obtain ⟨line, -, rfl⟩ := List.mem_map.mp mem
  exact notMem_take_of_le_strlen le_rfl (take_strlen line ▸ inside)

/-- `Fputs` prints all that `readline_v1` has stored. -/
theorem cString_stored {c : UInt8} {stored rest : Block} {stdin : Bool} (bytes : Bytes s)
    (at_ : s.client = .readline stored stdin) (data : s.toClient.data = c :: rest) :
    cString (stored ++ [c] ++ [0]) = stored ++ [c] := by
  have plain := bytes.notMem_output
  rw [cString_append_nul]
  apply cString_of_notMem
  simp only [State.flight, at_, data, Pc.stored, List.mem_append, List.mem_cons] at plain ⊢
  rintro (inside | rfl | inside)
  · exact plain (.inr (.inl inside))
  · exact plain (.inr (.inr (.inl (.inl rfl))))
  · cases inside

theorem line {stdio line : Block} {stdin : Pipe} (bytes : Bytes s) (at_ : s.client = .fgets)
    (input : line ++ (stdio ++ stdin.data) = s.stdio ++ s.stdin.data) :
    Bytes ({ s with stdin, stdio }.line line) where
  input := by
    rw [← bytes.input, ← input]
    simp [State.line]
  output := by
    have output := bytes.output
    simp only [State.flight, at_, Pc.stored, Pc.toSocket, List.append_nil,
      List.nil_append] at output
    simp only [State.line, State.flight, stored_afterWrite, toSocket_afterWrite,
      cString_append_nul, List.map_append, List.flatten_append, ← output]
    simp

theorem effect (bytes : Bytes s) (h : Effect s act t) : Bytes t := by
  cases h with
  | arrive more =>
      exact ⟨by simp [← bytes.input], bytes.output⟩
  | eof => exact ⟨bytes.input, bytes.output⟩
  | readable at_ | input at_ =>
      refine ⟨bytes.input, ?_⟩
      simpa [State.flight, at_, Pc.stored, Pc.toSocket] using bytes.output
  | store at_ data =>
      refine ⟨bytes.input, ?_⟩
      simpa [State.flight, at_, data, Pc.stored, Pc.toSocket] using bytes.output
  | @fputs n c stored stdin toClient at_ data =>
      have printed := bytes.cString_stored at_ data
      refine ⟨bytes.input, ?_⟩
      have output := bytes.output
      simp only [State.flight, at_, data, Pc.stored, Pc.toSocket] at output
      cases stdin <;> simp only [State.fputs, State.flight, printed, ← output] <;>
        simp [Pc.stored, Pc.toSocket]
  | fill at_ needs some_ moved =>
      exact ⟨by simp [← bytes.input, ← moved], bytes.output⟩
  | line at_ => exact bytes.line at_ (by
      rw [← List.append_assoc, ← (nextLine_takeLine room s.stdio).split])
  | last at_ => exact bytes.line at_ (by simp)
  | finish at_ =>
      refine ⟨bytes.input, ?_⟩
      simpa [State.flight, at_, Pc.stored, Pc.toSocket] using bytes.output
  | writen at_ moved =>
      refine ⟨bytes.input, ?_⟩
      rw [← bytes.output]
      simp only [State.flight, stored_afterWrite, toSocket_afterWrite]
      simp [at_, ← moved, Pc.stored, Pc.toSocket]
  | serverRead at_ some_ moved =>
      refine ⟨bytes.input, ?_⟩
      rw [← bytes.output]
      simp [State.flight, at_, ← moved, ServerPc.toSocket]
  | serverWrite at_ moved =>
      refine ⟨bytes.input, ?_⟩
      rw [← bytes.output]
      simp only [State.flight, toSocket_afterServer]
      simp [at_, ← moved, ServerPc.toSocket]

end Bytes

/-! ## Lines -/

/-- A line that `Fgets` and `readline_v1` return before the end of what they read from. -/
structure Full (line : Block) : Prop extends FgetsLine room line where
  ended : line.getLast? = some newline ∨ line.length = room

/-- No line goes on behind a full one. -/
theorem Full.eq_nil {line more : Block} (full : Full line)
    (longer : FgetsLine room (line ++ more)) : more = [] := by
  by_contra some_
  obtain last | size := full.ended
  · refine longer.first ?_
    rw [List.dropLast_append_of_ne_nil some_]
    exact List.mem_append_left _ (List.mem_of_getLast? last)
  · have short := longer.short
    rw [List.length_append, size] at short
    exact some_ (List.length_eq_zero_iff.mp (by omega))

/-- `readline_v1` cuts the stream where `Fgets` did. -/
theorem Full.eq_line {got line behind ahead : Block} (full : Full got)
    (form : FgetsLine room line) (sent : Full line ∨ ahead = [])
    (text : got ++ behind = line ++ ahead) : got = line ∧ behind = ahead := by
  obtain ⟨more, rfl, rfl⟩ | ⟨more, rfl, rfl⟩ := List.append_eq_append_iff.mp text
  · have none_ := full.eq_nil form
    subst none_
    exact ⟨(List.append_nil _).symm, rfl⟩
  · have none_ : more = [] := by
      obtain line | last := sent
      · exact line.eq_nil full.toFgetsLine
      · exact (List.append_eq_nil_iff.mp last).1
    subst none_
    exact ⟨List.append_nil _, rfl⟩

theorem State.HasLine.ne_nil (hasLine : s.HasLine) : s.stdio ≠ [] := by
  intro none_
  rw [State.HasLine, none_] at hasLine
  obtain inside | long := hasLine
  · cases inside
  · exact absurd long (Nat.not_le.mpr room_pos)

theorem full_takeLine (hasLine : s.HasLine) : Full (takeLine room s.stdio) := by
  have next := nextLine_takeLine room s.stdio
  refine ⟨fgetsLine_takeLine room s.stdio, ?_⟩
  obtain last | size | all := next.ended
  · exact .inl last
  · exact .inr size
  · have whole : takeLine room s.stdio = s.stdio := by
      simpa only [all, List.append_nil] using next.split.symm
    rw [whole] at next ⊢
    obtain inside | long := hasLine
    · left
      have nonempty := List.ne_nil_of_mem inside
      rw [← List.dropLast_concat_getLast nonempty] at inside
      obtain early | last := List.mem_append.mp inside
      · exact absurd early next.first
      · rw [List.getLast?_eq_some_getLast nonempty, List.mem_singleton.mp last]
    · exact .inr (le_antisymm next.short long)

/-- What came on standard input has all been returned by `Fgets`, and no more can come. -/
structure State.AtEnd (s : State) : Prop where
  closed : s.stdin.closed = true
  data : s.stdin.data = []
  stdio : s.stdio = []

/-- All lines are full, but for the one at the end of the input. -/
def FullLines (s : State) : Prop :=
  (∀ line ∈ s.lines, Full line) ∨
    s.AtEnd ∧ ∃ front last, s.lines = front ++ [last] ∧ (∀ line ∈ front, Full line) ∧
      FgetsLine room last

theorem FullLines.same (full : FullLines s) (lines : t.lines = s.lines)
    (atEnd : s.AtEnd → t.AtEnd) : FullLines t := by
  rw [FullLines, lines]
  exact full.imp_right (And.imp_left atEnd)

theorem FullLines.effect (full : FullLines s) (h : Effect s act t) : FullLines t := by
  cases h with
  | arrive more =>
      obtain all | ⟨atEnd, -⟩ := full
      · exact .inl all
      · exact Bool.noConfusion (more.symm.trans atEnd.closed)
  | eof =>
      exact full.same rfl fun atEnd => ⟨rfl, atEnd.data, atEnd.stdio⟩
  | fill at_ needs some_ moved =>
      obtain all | ⟨atEnd, -⟩ := full
      · exact .inl all
      · rw [atEnd.data] at moved
        exact absurd (List.append_eq_nil_iff.mp moved).1 some_
  | line at_ hasLine =>
      obtain all | ⟨atEnd, -⟩ := full
      · exact .inl (List.forall_mem_append.mpr
          ⟨all, List.forall_mem_singleton.mpr (full_takeLine hasLine)⟩)
      · exact absurd atEnd.stdio hasLine.ne_nil
  | last at_ needs some_ empty closed =>
      obtain all | ⟨atEnd, -⟩ := full
      · obtain ⟨inside, short⟩ := not_or.mp needs
        refine .inr ⟨⟨closed, empty, rfl⟩, s.lines, s.stdio, rfl, all, ?_⟩
        exact ⟨(Nat.lt_of_not_le short).le, fun early => inside (List.dropLast_subset _ early)⟩
      · exact absurd atEnd.stdio some_
  | finish at_ none_ empty closed =>
      exact full.same rfl fun _ => ⟨closed, empty, none_⟩
  | readable | input | store | fputs | writen | serverRead | serverWrite =>
      exact full.same rfl fun atEnd => ⟨atEnd.closed, atEnd.data, atEnd.stdio⟩

/-- A line that is on its way is full, or all of the rest of the input. -/
theorem FullLines.line_spec {done ahead : List Block} {line : Block} (full : FullLines s)
    (split : s.lines = done ++ line :: ahead) :
    FgetsLine room line ∧ (Full line ∨ ahead = [] ∧ s.AtEnd) := by
  obtain all | ⟨atEnd, front, last, whole, front_, form⟩ := full
  · have now := all line (split ▸ List.mem_append_right _ List.mem_cons_self)
    exact ⟨now.toFgetsLine, .inl now⟩
  · obtain rfl | ⟨ahead, rfl⟩ : ahead = [] ∨ ∃ back, ahead = back ++ [last] := by
      obtain none_ | some_ := List.eq_nil_or_concat ahead
      · exact .inl none_
      · obtain ⟨back, final, rfl⟩ := some_
        rw [split, List.concat_eq_append, ← List.cons_append, ← List.append_assoc] at whole
        exact .inr ⟨back, by rw [List.concat_eq_append, (List.append_inj' whole rfl).2]⟩
    · have same := (List.append_inj' (split.symm.trans whole) rfl).2
      rw [List.singleton_inj.mp same]
      exact ⟨form, .inr ⟨rfl, atEnd⟩⟩
    · rw [split, ← List.cons_append, ← List.append_assoc] at whole
      have now := front_ line ((List.append_inj' whole rfl).1 ▸
        List.mem_append_right _ List.mem_cons_self)
      exact ⟨now.toFgetsLine, .inl now⟩

/-! ## The invariant -/

/-- As long as `str_cli_v3` runs, nothing is closed. `readline_v1` starts with a byte to read. -/
structure Places (s : State) : Prop where
  connected : s.client ≠ .returned → Connected s
  serverLives : s.client ≠ .terminatedPrematurely
  reading : ∀ stored stdin, s.client = .readline stored stdin →
    newline ∉ stored ∧ stored.length < room ∧ (stored = [] → s.toClient.data ≠ [])
  writing : ∀ rest, s.client = .writen rest → rest ≠ []
  serving : ∀ rest, s.server.pc = .write rest → rest ≠ []
  finished : s.client = .returned → s.AtEnd

namespace Places

theorem afterWrite_ne (rest : Block) :
    State.afterWrite rest ≠ .returned ∧ State.afterWrite rest ≠ .terminatedPrematurely ∧
      (∀ stored stdin, State.afterWrite rest ≠ .readline stored stdin) ∧
      ∀ left, State.afterWrite rest = .writen left → left ≠ [] := by
  rw [State.afterWrite]
  split
  · exact ⟨nofun, nofun, nofun, nofun⟩
  · rename_i more
    refine ⟨nofun, nofun, nofun, fun left same => ?_⟩
    cases same
    exact more

/-- The client goes on, and does not read from the socket. -/
theorem ofClient (places : Places s) (connected : Connected t) (server : t.server = s.server)
    (client : t.client = .select ∨ t.client = .fgets ∨ ∃ rest, t.client = State.afterWrite rest) :
    Places t := by
  have goesOn : t.client ≠ .returned ∧ t.client ≠ .terminatedPrematurely ∧
      (∀ stored stdin, t.client ≠ .readline stored stdin) ∧
      ∀ left, t.client = .writen left → left ≠ [] := by
    obtain at_ | at_ | ⟨rest, at_⟩ := client <;> rw [at_]
    · exact ⟨nofun, nofun, nofun, nofun⟩
    · exact ⟨nofun, nofun, nofun, nofun⟩
    · exact afterWrite_ne rest
  obtain ⟨running, lives, elsewhere, writing⟩ := goesOn
  exact ⟨fun _ => connected, lives, fun stored stdin at_ => absurd at_ (elsewhere stored stdin),
    writing, server ▸ places.serving, fun at_ => absurd at_ running⟩

theorem effect (places : Places s) (running : s.client ≠ .returned) (h : Effect s act t) :
    Places t := by
  have connected := places.connected running
  obtain ⟨toServer, toClient, server⟩ := connected
  cases h with
  | arrive | eof =>
      exact ⟨fun _ => ⟨toServer, toClient, server⟩, places.serverLives, places.reading,
        places.writing, places.serving, fun finished => absurd finished running⟩
  | readable at_ ready =>
      refine ⟨fun _ => ⟨toServer, toClient, server⟩, nofun, ?_, nofun, places.serving, nofun⟩
      rintro stored stdin at_
      cases at_
      exact ⟨nofun, room_pos, fun _ => ready⟩
  | input =>
      exact places.ofClient ⟨toServer, toClient, server⟩ rfl (.inr (.inl rfl))
  | store at_ data closed goesOn =>
      refine ⟨fun _ => ⟨toServer, closed.trans toClient, server⟩, nofun, ?_, nofun,
        places.serving, nofun⟩
      obtain ⟨noNewline, short, -⟩ := places.reading _ _ at_
      rintro stored stdin at_
      cases at_
      obtain ⟨other, open_⟩ := not_or.mp goesOn
      rw [List.length_append, List.length_singleton] at open_
      simp only [List.mem_append, List.mem_singleton, not_or, List.length_append,
        List.length_singleton]
      exact ⟨⟨noNewline, Ne.symm other⟩, by omega, fun none_ => absurd none_ (by simp)⟩
  | @fputs n c stored stdin pipe at_ data closed =>
      refine places.ofClient (t := State.fputs _ _ stdin)
        ⟨toServer, closed.trans toClient, server⟩ rfl ?_
      cases stdin
      · exact .inl rfl
      · exact .inr (.inl rfl)
  | fill at_ =>
      exact places.ofClient ⟨toServer, toClient, server⟩ rfl (.inr (.inl at_))
  | line | last =>
      exact places.ofClient ⟨toServer, toClient, server⟩ rfl (.inr (.inr ⟨_, rfl⟩))
  | finish at_ none_ empty closed =>
      exact ⟨fun more => absurd rfl more, nofun, nofun, nofun, places.serving,
        fun _ => ⟨closed, empty, none_⟩⟩
  | writen =>
      exact places.ofClient ⟨toServer, toClient, server⟩ rfl (.inr (.inr ⟨_, rfl⟩))
  | serverRead at_ some_ moved closed =>
      refine ⟨fun _ => ⟨closed.trans toServer, toClient, nofun⟩, places.serverLives,
        places.reading, places.writing, ?_, fun finished => absurd finished running⟩
      rintro rest at_
      cases at_
      exact some_
  | @serverWrite k rest out left buff at_ moved some_ =>
      refine ⟨fun _ => ⟨toServer, toClient, ?_⟩, places.serverLives, ?_, places.writing, ?_,
        fun finished => absurd finished running⟩
      · dsimp only
        split <;> nofun
      · intro stored stdin at_
        obtain ⟨noNewline, short, -⟩ := places.reading stored stdin at_
        refine ⟨noNewline, short, fun _ none_ => some_ ?_⟩
        exact (List.append_eq_nil_iff.mp none_).2
      · intro rest at_
        dsimp only at at_
        split at at_
        · cases at_
        · cases at_
          assumption

end Places

structure Inv (s : State) : Prop extends Bytes s, Places s where
  full : FullLines s
  printed : s.stdout = s.shown ++ s.client.lastLine
  aligned : 0 ∉ s.arrived → ∃ done ahead, s.lines = done ++ ahead ∧ s.shown = done.flatten

namespace Inv

theorem init (buff : Block) : Inv (.init buff) where
  input := rfl
  output := rfl
  connected _ := ⟨rfl, rfl, nofun⟩
  serverLives := nofun
  reading := nofun
  writing := nofun
  serving := nofun
  finished := nofun
  full := .inl nofun
  printed := rfl
  aligned _ := ⟨[], [], rfl, rfl⟩

/-- The lines of an input without NUL are sent as they are. -/
theorem map_cString (inv : Inv s) (plain : 0 ∉ s.arrived) : s.lines.map cString = s.lines := by
  have same : ∀ line ∈ s.lines, cString line = id line := by
    intro line mem
    apply cString_of_notMem
    intro inside
    apply plain
    rw [← inv.input]
    exact List.mem_append_left _ (List.mem_flatten.mpr ⟨line, mem, inside⟩)
  exact (List.map_congr_left same).trans (List.map_id _)

/-- What `readline_v1` still gets are the lines behind those that have been printed. -/
theorem ahead_flatten {done ahead : List Block} (inv : Inv s) (plain : 0 ∉ s.arrived)
    (split : s.lines = done ++ ahead) (shown : s.shown = done.flatten) :
    s.client.stored ++ s.flight = ahead.flatten := by
  have output := inv.output
  rw [inv.map_cString plain, shown, split, List.flatten_append] at output
  exact List.append_cancel_left output

/-- `readline_v1` prints the first line that is on its way. -/
theorem aligned_fputs {c : UInt8} {stored rest : Block} {stdin : Bool} (inv : Inv s)
    (at_ : s.client = .readline stored stdin) (data : s.toClient.data = c :: rest)
    (ends : c = newline ∨ (stored ++ [c]).length = room) (plain : 0 ∉ s.arrived) :
    ∃ done ahead, s.lines = done ++ ahead ∧ s.shown ++ (stored ++ [c]) = done.flatten := by
  obtain ⟨done, ahead, split, shown⟩ := inv.aligned plain
  obtain ⟨noNewline, short, -⟩ := inv.reading stored stdin at_
  have got : Full (stored ++ [c]) := by
    refine ⟨⟨?_, ?_⟩, ends.imp_left fun last => ?_⟩
    · rw [List.length_append, List.length_singleton]
      exact short
    · rwa [List.dropLast_concat]
    · rw [List.getLast?_concat, last]
  have text := inv.ahead_flatten plain split shown
  simp only [State.flight, at_, data, Pc.stored] at text
  cases ahead with
  | nil => simp at text
  | cons line ahead =>
      obtain ⟨form, sent⟩ := inv.full.line_spec split
      rw [List.flatten_cons, List.cons_append, ← List.singleton_append,
        ← List.append_assoc] at text
      obtain ⟨same, -⟩ := got.eq_line form (sent.imp_right fun last => by rw [last.1]; rfl) text
      refine ⟨done ++ [line], ahead, by rw [split, List.append_assoc]; rfl, ?_⟩
      rw [same, shown]
      simp

/-- Only `Fputs` prints, until `str_cli_v3` ends. -/
theorem printed_effect (printed : s.stdout = s.shown ++ s.client.lastLine) (h : Effect s act t) :
    t.stdout = t.shown ++ t.client.lastLine := by
  cases h with
  | arrive | eof | serverRead | serverWrite => exact printed
  | readable at_ | input at_ | store at_ | finish at_ =>
      rw [at_] at printed
      simpa [Pc.lastLine] using printed
  | @fputs n c stored stdin toClient at_ =>
      rw [at_] at printed
      cases stdin <;> simpa [State.fputs, Pc.lastLine] using printed
  | fill => exact printed
  | line at_ | last at_ | writen at_ =>
      rw [at_] at printed
      exact printed.trans (congrArg (s.shown ++ ·) (lastLine_afterWrite _).symm)

/-- What a client that goes on has printed. -/
theorem stdout_eq (inv : Inv s) (running : s.client ≠ .returned) : s.stdout = s.shown := by
  have printed := inv.printed
  cases at_ : s.client with
  | returned => exact absurd at_ running
  | terminatedPrematurely => exact absurd at_ inv.serverLives
  | select | readline _ _ | fgets | writen _ => simpa [at_, Pc.lastLine] using printed

theorem step (inv : Inv s) (h : Step bufsiz s act t) : Inv t := by
  obtain ⟨running, -⟩ := not_or.mp (Option.ite_none_left_eq_some.mp h).1
  have effect := (inv.connected running).effect h
  have bytes := inv.toBytes.effect effect
  refine ⟨bytes, inv.toPlaces.effect running effect, inv.full.effect effect,
    printed_effect inv.printed effect, ?_⟩
  intro plain
  cases effect with
  | arrive =>
      exact inv.aligned fun mem => plain (List.mem_append_left _ mem)
  | fputs at_ data closed ends =>
      obtain ⟨done, ahead, split, shown⟩ := inv.aligned_fputs at_ data ends plain
      exact ⟨done, ahead, split,
        (congrArg (s.shown ++ ·) (inv.toBytes.cString_stored at_ data)).trans shown⟩
  | line | last =>
      obtain ⟨done, ahead, split, shown⟩ := inv.aligned plain
      exact ⟨done, _, (congrArg (· ++ _) split).trans (List.append_assoc ..), shown⟩
  | eof | readable | input | store | fill | finish | writen | serverRead | serverWrite =>
      exact inv.aligned plain

theorem of_reachable (h : Reachable (Step bufsiz) (.init buff) s) : Inv s :=
  h.invariant (init buff) fun _ _ _ inv step => inv.step step

end Inv

/-! ## Runs come to rest -/

def Pc.rank : Pc → Nat
  | select => 2
  | readline _ _ | fgets | writen _ => 1
  | returned | terminatedPrematurely => 0

/-- Bounds the steps that the two processes still make without new input: each byte counts for
the places that are before it. -/
def State.rank (s : State) : Nat :=
  12 * s.stdin.data.length + 10 * s.stdio.length + 8 * s.client.toSocket.length +
    6 * s.toServer.data.length + 4 * s.server.pc.toSocket.length + 2 * s.toClient.data.length +
    s.client.rank

theorem rank_afterWrite (rest : Block) : (State.afterWrite rest).rank ≤ 2 := by
  rw [State.afterWrite]
  split
  · exact le_rfl
  · exact Nat.le_succ 1

theorem length_cString_le (line : Block) : (cString (line ++ [0])).length ≤ line.length := by
  rw [cString_append_nul]
  exact (List.takeWhile_prefix _).length_le

theorem rank_line {stdio line : Block} (at_ : s.client = .fgets) (some_ : line ≠ [])
    (split : line ++ stdio = s.stdio) : ({ s with stdio }.line line).rank < s.rank := by
  have after := rank_afterWrite (cString (line ++ [0]))
  have short := length_cString_le line
  have taken := List.length_pos_iff.mpr some_
  have before : s.client.rank = 1 := by rw [at_]; rfl
  simp only [State.rank, State.line, toSocket_afterWrite, ← split, List.length_append]
  omega

theorem rank_effect (own : act.own = true) (h : Effect s act t) : t.rank < s.rank := by
  cases h with
  | arrive | eof => cases own
  | readable at_ | input at_ => simp [State.rank, at_, Pc.rank, Pc.toSocket]
  | store at_ data => simp [State.rank, at_, data, Pc.rank, Pc.toSocket]
  | @fputs n c stored stdin toClient at_ data =>
      cases stdin <;> simp [State.rank, State.fputs, at_, data, Pc.rank, Pc.toSocket]
      all_goals omega
  | fill at_ needs some_ moved =>
      have taken := List.length_pos_iff.mpr some_
      simp only [State.rank, ← moved, List.length_append]
      omega
  | line at_ hasLine =>
      exact rank_line at_ (takeLine_ne_nil room_pos hasLine.ne_nil)
        (nextLine_takeLine room s.stdio).split.symm
  | last at_ needs some_ => exact rank_line at_ some_ (List.append_nil _)
  | finish at_ => simp [State.rank, at_, Pc.rank, Pc.toSocket]
  | @writen k _ out left at_ moved some_ =>
      have after := rank_afterWrite left
      have taken := List.length_pos_iff.mpr some_
      have before : s.client.rank = 1 := by rw [at_]; rfl
      have rest : s.client.toSocket = out ++ left := by rw [at_, moved]; rfl
      simp only [State.rank, toSocket_afterWrite, rest, Pipe.write_data, List.length_append]
      omega
  | serverRead at_ some_ moved =>
      have taken := List.length_pos_iff.mpr some_
      simp only [State.rank, at_, ServerPc.toSocket, ← moved, List.length_append, List.length_nil]
      omega
  | @serverWrite k _ out left buff at_ moved some_ =>
      have taken := List.length_pos_iff.mpr some_
      have rest : s.server.pc.toSocket = out ++ left := by rw [at_, moved]; rfl
      simp only [State.rank, toSocket_afterServer, rest, Pipe.write_data, List.length_append]
      omega

theorem rank_step (inv : Inv s) (h : Step bufsiz s act t) :
    (if act.own = true then 1 else 0) + t.rank + 12 * s.arrived.length ≤
      s.rank + 12 * t.arrived.length := by
  obtain ⟨running, -⟩ := not_or.mp (Option.ite_none_left_eq_some.mp h).1
  have effect := (inv.connected running).effect h
  split
  · rename_i own
    have falls := rank_effect own effect
    have same : t.arrived = s.arrived := by cases effect <;> first | rfl | cases own
    rw [same]
    omega
  · rename_i env
    cases effect with
    | arrive =>
        simp only [State.rank, Pipe.write_data, List.length_append]
        omega
    | eof => simp [State.rank]
    | _ => exact absurd rfl env

theorem rank_steps (run : Steps (Step bufsiz) s as t) (inv : Inv s) :
    as.countP Action.own + t.rank + 12 * s.arrived.length ≤ s.rank + 12 * t.arrived.length := by
  induction run with
  | nil => simp
  | cons first _ ih =>
      have rest := ih (inv.step first)
      have one := rank_step inv first
      rw [List.countP_cons]
      omega

/-- The steps of the two processes, without new input. -/
def Own (bufsiz : Nat) : State → Action → State → Prop :=
  Guarded (fun _ act => act.own = true) (Step bufsiz)

section Rest

variable (stuck : Stuck (Own bufsiz) s)

include stuck

theorem blocked (inv : Inv s) (running : s.client ≠ .returned) :
    s.select = none ∧ (∀ n, s.read n = none) ∧ (∀ n, s.fill bufsiz n = none) ∧ s.fgets = none ∧
      (∀ k, s.writen k = none) ∧ (∀ n, s.serverRead n = none) ∧ ∀ k, s.serverWrite k = none := by
  have goesOn : ¬ (s.client = .returned ∨ s.client = .terminatedPrematurely) :=
    not_or.mpr ⟨running, inv.serverLives⟩
  have none_ (act : Action) (own : act.own = true) : s.step bufsiz act = none :=
    Option.eq_none_iff_forall_ne_some.mpr fun t h => stuck act t ⟨own, h⟩
  simp only [State.step, if_neg goesOn] at none_
  exact ⟨none_ .select rfl, fun n => none_ (.read n) rfl, fun n => none_ (.fill n) rfl,
    none_ .fgets rfl, fun k => none_ (.writen k) rfl, fun n => none_ (.serverRead n) rfl,
    fun k => none_ (.serverWrite k) rfl⟩

/-- Where nothing more happens, the server waits. -/
theorem server_waits (inv : Inv s) (running : s.client ≠ .returned) :
    s.server.pc = .read ∧ s.toServer.data = [] := by
  obtain ⟨-, -, -, -, -, serverRead, serverWrite⟩ := blocked stuck inv running
  have reading : s.server.pc = .read := by
    cases at_ : s.server.pc with
    | read => rfl
    | closed => exact absurd at_ (inv.connected running).server
    | write rest =>
        have write := serverWrite 1
        simp [State.serverWrite, at_, Pipe.writeSome_one (inv.serving rest at_)] at write
  refine ⟨reading, ?_⟩
  by_contra some_
  have read := serverRead 1
  simp only [State.serverRead, reading,
    Pipe.read_of_ne EchoTcp.MAXLINE some_ (Nat.zero_lt_succ _), Option.bind_eq_bind,
    Option.bind_some] at read
  split at read <;> cases read

theorem input_waits (inv : Inv s) (positive : 0 < bufsiz) (at_ : s.client = .fgets) :
    ¬ s.HasLine ∧ s.stdin = ⟨[], false⟩ := by
  obtain ⟨-, -, fill, fgets, -, -, -⟩ := blocked stuck inv (by rw [at_]; nofun)
  have needs : ¬ s.HasLine := by
    intro hasLine
    rw [State.fgets, if_pos ⟨at_, hasLine⟩] at fgets
    cases fgets
  have empty : s.stdin.data = [] := by
    by_contra some_
    have read := fill 1
    simp only [State.fill, if_pos (And.intro at_ needs), Pipe.read_of_ne bufsiz some_ positive,
      Option.bind_eq_bind, Option.bind_some] at read
    split at read
    · split at read <;> cases read
    · cases read
  have more : s.stdin.closed = false := by
    by_contra closed
    have read := fill 0
    simp only [State.fill, if_pos (And.intro at_ needs),
      Pipe.read_of_closed bufsiz empty (by simpa using closed), Option.bind_eq_bind,
      Option.bind_some, if_true] at read
    split at read <;> cases read
  refine ⟨needs, ?_⟩
  rw [← empty, ← more]

end Rest

/-- What the client does where nothing more happens until something comes on standard input. In
`select`, the lines that `Fgets` has already read into the buffer are left there. In `Fgets`, the
echoes are left in the socket. At the end of the input it may wait in `readline_v1` for ever. -/
inductive Rests (s : State) : Prop
  | returned (at_ : s.client = .returned)
  | select (at_ : s.client = .select) (waits : s.stdin = ⟨[], false⟩)
      (all : s.stdout ++ s.stdio = s.arrived)
  | fgets (at_ : s.client = .fgets) (waits : s.stdin = ⟨[], false⟩) (needs : ¬ s.HasLine)
      (all : s.stdout ++ (s.toClient.data ++ s.stdio) = s.arrived)
  | readline {stored : Block} {stdin : Bool} (at_ : s.client = .readline stored stdin)
      (atEnd : s.AtEnd) (all : s.stdout ++ stored = s.arrived)

namespace Inv

/-- Without a NUL, each byte of the input is at one place. -/
theorem all_bytes (inv : Inv s) (plain : 0 ∉ s.arrived) :
    s.shown ++ (s.client.stored ++ (s.flight ++ (s.stdio ++ s.stdin.data))) = s.arrived := by
  have output := inv.output
  rw [inv.map_cString plain] at output
  rw [← inv.input, ← output]
  simp

/-- Where `readline_v1` has got all that is on its way and goes on waiting, the input has ended
inside of a line. -/
theorem atEnd_of_readline {stored : Block} {stdin : Bool} (inv : Inv s) (plain : 0 ∉ s.arrived)
    (at_ : s.client = .readline stored stdin) (empty : s.flight = []) : s.AtEnd := by
  obtain ⟨done, ahead, split, shown⟩ := inv.aligned plain
  obtain ⟨noNewline, short, started⟩ := inv.reading stored stdin at_
  have text := inv.ahead_flatten plain split shown
  simp only [at_, empty, Pc.stored, List.append_nil] at text
  cases ahead with
  | nil => exact absurd (List.append_eq_nil_iff.mp empty).1 (started text)
  | cons line ahead =>
      obtain ⟨-, full | last⟩ := inv.full.line_spec split
      · rw [text, List.flatten_cons] at noNewline short
        obtain final | size := full.ended
        · exact absurd (List.mem_append_left _ (List.mem_of_getLast? final)) noNewline
        · rw [List.length_append, size] at short
          exact absurd short (Nat.not_lt.mpr (Nat.le_add_right ..))
      · exact last.2

theorem rests_of_stuck (inv : Inv s) (plain : 0 ∉ s.arrived) (positive : 0 < bufsiz)
    (stuck : Stuck (Own bufsiz) s) : Rests s := by
  have all := inv.all_bytes plain
  by_cases running : s.client = .returned
  case pos => exact .returned running
  rw [← inv.stdout_eq running] at all
  obtain ⟨select, read, -, -, writen, -, -⟩ := blocked stuck inv running
  obtain ⟨server, toServer⟩ := server_waits stuck inv running
  have flight : s.flight = s.toClient.data ++ s.client.toSocket := by
    rw [State.flight, server, toServer]
    rfl
  have notClosed := (inv.connected running).toClient
  cases at_ : s.client with
  | returned => exact .returned at_
  | terminatedPrematurely => exact absurd at_ inv.serverLives
  | select =>
      simp only [State.select, if_pos at_] at select
      split at select
      · cases select
      · rename_i unread
        split at select
        · cases select
        · rename_i idle
          obtain ⟨toClient, -⟩ := not_or.mp unread
          obtain ⟨data, more⟩ := not_or.mp idle
          have open_ : s.stdin.closed = false := by simpa using more
          have empty : s.stdin = ⟨[], false⟩ := by rw [← not_not.mp data, ← open_]
          rw [flight, not_not.mp toClient, at_, empty] at all
          exact .select at_ empty (by simpa [Pc.stored, Pc.toSocket] using all)
  | fgets =>
      obtain ⟨needs, waits⟩ := input_waits stuck inv positive at_
      rw [flight, at_, waits] at all
      exact .fgets at_ waits needs (by simpa [Pc.stored, Pc.toSocket] using all)
  | writen rest =>
      have write := writen 1
      simp [State.writen, at_, Pipe.writeSome_one (inv.writing rest at_)] at write
  | readline stored stdin =>
      have toClient : s.toClient.data = [] := by
        by_contra some_
        have read := read 1
        simp [State.read, at_, Pipe.read_of_ne 1 some_ le_rfl] at read
      have empty : s.flight = [] := by rw [flight, toClient, at_]; rfl
      have atEnd := inv.atEnd_of_readline plain at_ empty
      rw [empty, at_, atEnd.stdio, atEnd.data] at all
      exact .readline at_ atEnd (by simpa [Pc.stored] using all)

end Inv

/-- What a resting client waits for. -/
theorem Rests.waits (rests : Rests s) :
    (s.client = .select ∨ s.client = .fgets → s.stdin = ⟨[], false⟩) ∧
      (s.client = .fgets → ¬ s.HasLine) ∧ ∀ rest, s.client ≠ .writen rest := by
  cases rests with
  | returned at_ | readline at_ =>
      rw [at_]
      refine ⟨?_, nofun, nofun⟩
      rintro (other | other) <;> cases other
  | select at_ waits =>
      rw [at_]
      exact ⟨fun _ => waits, nofun, nofun⟩
  | fgets at_ waits needs =>
      rw [at_]
      exact ⟨fun _ => waits, fun _ => needs, nofun⟩

/-- With a client that rests, at most its socket holds something. -/
theorem Inv.flight_of_rests (inv : Inv s) (plain : 0 ∉ s.arrived) (rests : Rests s)
    (running : s.client ≠ .returned) :
    (s.client = .fgets ∨ s.toClient.data = []) ∧ s.server.pc.toSocket = [] ∧
      s.toServer.data = [] := by
  have whole := inv.all_bytes plain
  rw [← inv.stdout_eq running] at whole
  have flight : s.flight = [] ∨ s.client = .fgets ∧ s.flight = s.toClient.data := by
    cases rests with
    | returned at_ => exact absurd at_ running
    | select at_ waits all =>
        left
        rw [← all, at_, waits] at whole
        simpa [Pc.stored] using whole
    | fgets at_ waits needs all =>
        right
        rw [← all, at_, waits] at whole
        exact ⟨at_, by simpa [Pc.stored] using whole⟩
    | readline at_ atEnd all =>
        left
        rw [← all, at_, atEnd.stdio, atEnd.data] at whole
        simpa [Pc.stored] using whole
  obtain empty | ⟨at_, same⟩ := flight
  · simp only [State.flight, List.append_eq_nil_iff] at empty
    exact ⟨.inr empty.1, empty.2.1, empty.2.2.1⟩
  · simp only [State.flight, List.append_right_eq_self, List.append_eq_nil_iff] at same
    exact ⟨.inl at_, same.1, same.2.1⟩

theorem Inv.stuck_of_rests (inv : Inv s) (plain : 0 ∉ s.arrived) (rests : Rests s) :
    Stuck (Own bufsiz) s := by
  rintro act t ⟨own, h⟩
  obtain ⟨running, -⟩ := not_or.mp (Option.ite_none_left_eq_some.mp h).1
  obtain ⟨input, needs, silent⟩ := rests.waits
  obtain ⟨toClient, server, toServer⟩ := inv.flight_of_rests plain rests running
  -- no system call has what it waits for
  cases (inv.connected running).effect h with
  | arrive | eof => cases own
  | readable at_ ready => exact toClient.elim (by rw [at_]; nofun) ready
  | input at_ ready =>
      rw [input (.inl at_)] at ready
      obtain data | closed := ready
      · exact data rfl
      · cases closed
  | store at_ data | fputs at_ data =>
      obtain elsewhere | empty := toClient
      · rw [at_] at elsewhere
        cases elsewhere
      · rw [empty] at data
        cases data
  | fill at_ _ some_ moved =>
      rw [input (.inr at_)] at moved
      exact some_ (List.append_eq_nil_iff.mp moved).1
  | line at_ hasLine => exact needs at_ hasLine
  | last at_ _ _ _ closed | finish at_ _ _ closed =>
      rw [input (.inr at_)] at closed
      cases closed
  | writen at_ => exact silent _ at_
  | serverRead at_ some_ moved =>
      rw [toServer] at moved
      exact some_ (List.append_eq_nil_iff.mp moved).1
  | serverWrite at_ moved some_ =>
      rw [at_] at server
      exact some_ (List.append_eq_nil_iff.mp (moved.trans server)).1

/-- What `str_cli_v3` prints is what came on standard input, in this order: no byte is printed
before the bytes in front of it, or twice. A line with a NUL is cut off there. The server is never
found gone. Where `str_cli_v3` returns, it prints one line more, and the echoes that are still on
their way are lost. -/
theorem printed_in_order (h : Reachable (Guarded Logged (Step bufsiz)) (.init buff) s) :
    FullLines s ∧ s.lines.flatten ++ (s.stdio ++ s.stdin.data) = s.arrived ∧
    s.stdout = s.shown ++ (if s.client = .returned then finishLine else []) ∧
    s.shown ++ (s.client.stored ++ s.flight) = (s.lines.map cString).flatten ∧
    s.client ≠ .terminatedPrematurely ∧
    (0 ∉ s.arrived → s.client = .returned → s.shown ++ s.flight = s.arrived) := by
  obtain ⟨as, run⟩ := h
  have inv := Inv.of_reachable ⟨as, run.mono fun _ _ _ step => step.2⟩
  refine ⟨inv.full, inv.input, ?_, inv.output, inv.serverLives, fun plain returned => ?_⟩
  · split
    · rename_i returned
      rw [inv.printed, returned]
      rfl
    · rename_i running
      rw [inv.stdout_eq running, List.append_nil]
  have atEnd := inv.finished returned
  have all := inv.all_bytes plain
  rw [returned, atEnd.stdio, atEnd.data] at all
  simpa [Pc.stored] using all

/-- At the end of the input `Fgets` returns before the echo has come. -/
theorem printed_in_order_lost :
    ∃ s, Reachable (Guarded Logged (Step 4096)) (.init []) s ∧ s.client = .returned ∧
      s.arrived = [97, 10] ∧ s.stdout = finishLine ∧ s.flight = [97, 10] := by
  have run : ∃ s, Steps (Guarded Logged (Step 4096)) (.init [])
      [.arrive [97, 10], .eof, .select, .fill 2, .fgets, .writen 2, .select, .fill 0] s ∧
      s.client = .returned ∧ s.arrived = [97, 10] ∧ s.shown = [] :=
    ⟨_, Steps.of_foldlM_guarded rfl, rfl, rfl, rfl⟩
  obtain ⟨s, steps, returned, arrived, shown⟩ := run
  obtain ⟨-, -, printed, -, -, lost⟩ := printed_in_order ⟨_, steps⟩
  have all := lost (by rw [arrived]; decide) returned
  rw [shown, arrived] at all
  rw [shown, if_pos returned] at printed
  exact ⟨s, ⟨_, steps⟩, returned, arrived, printed, all⟩

/-- Between two inputs, the processes always come to rest, and it is known where every byte is
then. Lines that are whole may be left in the buffer of the stream, and their echoes are printed
only after the next input. At the end of the input the client returns, or waits for ever for the
end of a line without a newline. -/
theorem rests_iff (positive : 0 < bufsiz) (run : Steps (Step bufsiz) (.init buff) as s)
    (plain : 0 ∉ s.arrived) :
    as.countP Action.own ≤ 12 * s.arrived.length + 2 ∧ (Stuck (Own bufsiz) s ↔ Rests s) := by
  have inv := Inv.of_reachable ⟨as, run⟩
  have bound := rank_steps run (Inv.init buff)
  have start : (State.init buff).rank = 2 := rfl
  have nothing : (State.init buff).arrived.length = 0 := rfl
  exact ⟨by omega, inv.rests_of_stuck plain positive, inv.stuck_of_rests plain⟩

/-- Two lines come at once, and the second is left in the buffer. -/
theorem rests_iff_stranded :
    ∃ as s, Steps (Step 4096) (.init []) as s ∧ Stuck (Own 4096) s ∧
      s.arrived = [97, 10, 98, 10] ∧ s.stdout = [97, 10] ∧ s.stdio = [98, 10] := by
  have run : ∃ s, Steps (Step 4096) (.init [])
      [.arrive [97, 10, 98, 10], .select, .fill 4, .fgets, .writen 2, .serverRead 2,
        .serverWrite 2, .select, .read 1, .read 1] s ∧
      s.client = .select ∧ s.stdin = ⟨[], false⟩ ∧ s.arrived = [97, 10, 98, 10] ∧
      s.stdout = [97, 10] ∧ s.stdio = [98, 10] :=
    ⟨_, Steps.of_foldlM_option rfl, rfl, rfl, rfl, rfl, rfl⟩
  obtain ⟨s, steps, at_, waits, arrived, stdout, stdio⟩ := run
  have rests : Rests s := .select at_ waits (by rw [stdout, stdio, arrived]; rfl)
  have still := (rests_iff (by decide) steps (by rw [arrived]; decide)).2.mpr rests
  exact ⟨_, s, steps, still, arrived, stdout, stdio⟩

end UnixProgramming.EchoTcp.Selecting
