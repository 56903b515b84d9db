import UnixProgramming.EchoTcp.Integrity
import UnixProgramming.Library.Progress
import UnixProgramming.Unp.Lines

/-!
# `str_cli` and `str_echo` on one connection

The first client sends a line and waits until `readline_v1` has read a line. Two processes run
system call by system call, in any order, and the environment chooses how many bytes each call
moves. There are no failed calls. What the server and both `main` print is left out, but not what
the server's log line reads: `Dialog.Logged` says that it does not run over the end of `buff`.
-/

namespace UnixProgramming.EchoTcp

open CMemory Transition Unp

/-- The room of `Fgets` and of `readline_v1` in front of the NUL. -/
def room : Nat := EchoTcp.MAXLINE - 1

theorem room_pos : 0 < room := Nat.zero_lt_succ _

/-- Where the client is: what a `Writen` still has to write, or what `readline_v1` has stored. -/
inductive StrCliPc
  | fgets
  | writen (rest : Block)
  | readline (stored : Block)
  | returned
  | terminatedPrematurely
  deriving DecidableEq

structure Dialog where
  client : StrCliPc
  stdin : Block
  stdout : Block
  server : Server
  toServer : Pipe
  toClient : Pipe

inductive DialogAction
  | fgets
  | writen (k : Nat)
  | read (n : Nat)
  | serverRead (n : Nat)
  | serverWrite (k : Nat)
  deriving DecidableEq

namespace Dialog

def init (input buff : Block) : Dialog where
  client := .fgets
  stdin := input
  stdout := []
  server := ⟨.read, buff⟩
  toServer := ⟨[], false⟩
  toClient := ⟨[], false⟩

/-- `LOG_D("client recv[%d]:%s\n", n, recvline)`, with the value of `readline_v1`. -/
def recvLine (line : Block) : Block :=
  ascii "[D] client recv[" ++ decimal (lineRet room 1 line) ++ ascii "]:" ++
    cString (line ++ [0]) ++ ascii "\n\r\n"

/-- What is printed for an answer of the server: the log line and what `Fputs` writes. -/
def shown (line : Block) : Block := recvLine line ++ cString (line ++ [0])

/-- `while (nleft > 0)` of the `Writen`. -/
def afterWrite (rest : Block) : StrCliPc := if rest = [] then .readline [] else .writen rest

/-- At the end of standard input `str_cli` returns and `main` closes the socket. -/
def fgets (s : Dialog) : Option Dialog :=
  if s.client = .fgets then
    if s.stdin = [] then some { s with client := .returned, toServer := s.toServer.close }
    else
      let sendline := takeLine room s.stdin ++ [0]
      some { s with
        stdin := dropLine room s.stdin
        client := afterWrite (cString sendline) }
  else none

def writen (s : Dialog) (k : Nat) : Option Dialog :=
  match s.client with
  | .writen rest => do
      let (out, rest) ← Pipe.writeSome rest k
      return { s with toServer := s.toServer.write out, client := afterWrite rest }
  | _ => none

/-- `Fputs` behind `readline_v1`, which has put a NUL behind the line. -/
def fputs (s : Dialog) (line : Block) : Dialog :=
  { s with stdout := s.stdout ++ shown line, client := .fgets }

/-- What `readline_v1` does with the bytes of one `read(fd, &c, 1)`. With no byte stored it returns
0, and `err_quit` prints why. That text is left out: it never comes to this. -/
def received (s : Dialog) (stored bytes : Block) : Dialog :=
  if bytes = [] then
    if stored = [] then { s with client := .terminatedPrematurely } else s.fputs stored
  else if bytes = [newline] ∨ (stored ++ bytes).length = room then
    s.fputs (stored ++ bytes)
  else { s with client := .readline (stored ++ bytes) }

def read (s : Dialog) (n : Nat) : Option Dialog :=
  match s.client with
  | .readline stored => do
      let (bytes, toClient) ← s.toClient.read 1 n
      return { s with toClient }.received stored bytes
  | _ => none

/-- At end of file `str_echo` returns and its caller closes the connection. -/
def serverRead (s : Dialog) (n : Nat) : Option Dialog :=
  match s.server.pc with
  | .read => do
      let (bytes, toServer) ← s.toServer.read EchoTcp.MAXLINE n
      if bytes = [] then
        return { s with
          toServer, toClient := s.toClient.close, server := { s.server with pc := .closed } }
      else
        let buff := fill s.server.buff bytes
        return { s with toServer, server := ⟨.write (buff.take bytes.length), buff⟩ }
  | _ => none

def serverWrite (s : Dialog) (k : Nat) : Option Dialog :=
  match s.server.pc with
  | .write rest => do
      let (out, rest) ← Pipe.writeSome rest k
      let server : Server :=
        if rest = [] then ⟨.read, List.replicate EchoTcp.MAXLINE 0⟩
        else ⟨.write rest, s.server.buff⟩
      return { s with toClient := s.toClient.write out, server }
  | _ => none

def step (s : Dialog) : DialogAction → Option Dialog
  | .fgets => s.fgets
  | .writen k => s.writen k
  | .read n => s.read n
  | .serverRead n => s.serverRead n
  | .serverWrite k => s.serverWrite k

end Dialog

def DialogStep (s : Dialog) (act : DialogAction) (s' : Dialog) : Prop := s.step act = some s'

/-- The server's `buff` has a NUL in it when the log line prints it. -/
def Dialog.Logged (s : Dialog) : DialogAction → Prop
  | .serverRead n => n ≠ 0 → 0 ∈ fill s.server.buff (s.toServer.data.take n)
  | _ => True

/-! ## Lines that are answered -/

/-- The line is sent whole, and `readline_v1` comes to an end behind its last byte. -/
def Answered (line : Block) : Prop :=
  0 ∉ line ∧ (line.getLast? = some newline ∨ line.length = room)

theorem cString_prefix (b : Block) : ∃ back, b = cString b ++ back :=
  ⟨_, (List.takeWhile_append_dropWhile ..).symm⟩

/-- Where `readline_v1` ends, it has read the whole line. -/
theorem answered_of_read {line got behind : Block} (form : FgetsLine room line)
    (text : got ++ behind = cString line)
    (ends : got.getLast? = some newline ∨ got.length = room) :
    Answered line ∧ behind = [] ∧ got = line := by
  obtain ⟨back, whole⟩ := cString_prefix line
  rw [← text, List.append_assoc] at whole
  have nothing : behind ++ back = [] := by
    obtain last | full := ends
    · by_contra more
      refine form.first ?_
      rw [whole, List.dropLast_append_of_ne_nil more]
      exact List.mem_append_left _ (List.mem_of_getLast? last)
    · have short := form.short
      rw [whole, List.length_append, full] at short
      exact List.length_eq_zero_iff.mp (by omega)
  obtain ⟨rfl, rfl⟩ := List.append_eq_nil_iff.mp nothing
  have plain : 0 ∉ cString line := take_strlen line ▸ notMem_take_of_le_strlen le_rfl
  rw [← text, List.append_nil] at plain
  rw [List.append_nil, List.append_nil] at whole
  rw [whole]
  exact ⟨⟨plain, ends⟩, rfl, rfl⟩

/-- A line that `readline_v1` still waits for when all of it has come back. -/
theorem not_answered_of_wait {line stored : Block} (text : stored = cString line)
    (noNewline : newline ∉ stored) (short : stored.length < room) :
    ¬ Answered line := by
  rintro ⟨plain, last | full⟩
  · rw [cString_of_notMem plain] at text
    exact noNewline (text ▸ List.mem_of_getLast? last)
  · rw [cString_of_notMem plain] at text
    rw [text, full] at short
    exact lt_irrefl _ short

/-! ## Where the bytes are -/

namespace StrCliPc

def toSocket : StrCliPc → Block
  | writen rest => rest
  | fgets | readline _ | returned | terminatedPrematurely => []

def stored : StrCliPc → Block
  | readline stored => stored
  | fgets | writen _ | returned | terminatedPrematurely => []

/-- The client is behind `Fgets`, and `readline_v1` has not come to an end. -/
def Waiting : StrCliPc → Prop
  | writen rest => rest ≠ []
  | readline stored => newline ∉ stored ∧ stored.length < room
  | fgets | returned | terminatedPrematurely => False

end StrCliPc

theorem StrCliPc.Waiting.ne_returned {pc : StrCliPc} (waits : pc.Waiting) : pc ≠ .returned := by
  rintro rfl
  exact waits

theorem fgets_ne_returned : StrCliPc.fgets ≠ .returned := nofun

theorem afterWrite_spec (rest : Block) : (Dialog.afterWrite rest).Waiting ∧
    (Dialog.afterWrite rest).stored = [] ∧ (Dialog.afterWrite rest).toSocket = rest := by
  rw [Dialog.afterWrite]
  split
  · rename_i empty
    exact ⟨⟨nofun, Nat.zero_lt_succ _⟩, rfl, empty.symm⟩
  · rename_i more
    exact ⟨more, rfl, rfl⟩

/-- The bytes between the client's two calls, from the socket back. -/
def Dialog.flight (s : Dialog) : Block :=
  s.toClient.data ++ (s.server.pc.toSocket ++ (s.toServer.data ++ s.client.toSocket))

/-- The lines in front of the one that is on its way have been answered, and it is all that is on
its way. -/
inductive Talk (input : Block) (s : Dialog) : Prop
  | idle (done : List Block) (lines : fgetsLines room input = done ++ fgetsLines room s.stdin)
      (answered : ∀ line ∈ done, Answered line) (shown : s.stdout = done.flatMap Dialog.shown)
      (at_ : s.client = .fgets) (empty : s.flight = [])
  | waiting (done : List Block) (line : Block)
      (lines : fgetsLines room input = done ++ line :: fgetsLines room s.stdin)
      (answered : ∀ line ∈ done, Answered line) (shown : s.stdout = done.flatMap Dialog.shown)
      (form : FgetsLine room line) (at_ : s.client.Waiting)
      (text : s.client.stored ++ s.flight = cString line)
  | finished (answered : ∀ line ∈ fgetsLines room input, Answered line)
      (shown : s.stdout = (fgetsLines room input).flatMap Dialog.shown)
      (at_ : s.client = .returned) (empty : s.flight = [])

theorem Talk.moved {input : Block} {s s' : Dialog} (talk : Talk input s)
    (client : s'.client = s.client) (stdin : s'.stdin = s.stdin) (stdout : s'.stdout = s.stdout)
    (flight : s'.flight = s.flight) : Talk input s' := by
  cases talk with
  | idle done lines answered shown at_ empty =>
      exact .idle done (stdin ▸ lines) answered (stdout ▸ shown) (client ▸ at_) (flight ▸ empty)
  | waiting done line lines answered shown form waits text =>
      exact .waiting done line (stdin ▸ lines) answered (stdout ▸ shown) form (client ▸ waits)
        (by rw [client, flight]; exact text)
  | finished answered shown at_ empty =>
      exact .finished answered (stdout ▸ shown) (client ▸ at_) (flight ▸ empty)

structure DialogInv (input : Block) (s : Dialog) : Prop where
  talk : Talk input s
  writing : ∀ rest, s.server.pc = .write rest → rest ≠ []
  fin : s.toServer.closed = true ↔ s.client = .returned
  served : s.toClient.closed = true ↔ s.server.pc = .closed
  leaves : s.server.pc = .closed → s.client = .returned

namespace DialogInv

variable {input buff : Block} {s s' : Dialog}

theorem init (input buff : Block) : DialogInv input (.init input buff) where
  talk := .idle [] rfl (fun _ mem => nomatch mem) rfl rfl rfl
  writing := nofun
  fin := ⟨nofun, nofun⟩
  served := ⟨nofun, nofun⟩
  leaves := nofun

/-- As long as `str_cli` runs, nothing is closed. -/
theorem connected (inv : DialogInv input s) (running : s.client ≠ .returned) :
    s.toServer.closed ≠ true ∧ s.server.pc ≠ .closed ∧ s.toClient.closed ≠ true :=
  ⟨fun closed => running (inv.fin.mp closed), fun closed => running (inv.leaves closed),
    fun closed => running (inv.leaves (inv.served.mp closed))⟩

/-- A step of a client that goes on. -/
theorem ofClient (inv : DialogInv input s) (running : s.client ≠ .returned)
    (goesOn : s'.client ≠ .returned) (talk : Talk input s') (server : s'.server = s.server)
    (toServer : s'.toServer.closed = s.toServer.closed)
    (toClient : s'.toClient.closed = s.toClient.closed) : DialogInv input s' := by
  obtain ⟨fin, serving, served⟩ := inv.connected running
  refine ⟨talk, server ▸ inv.writing, ⟨fun closed => ?_, fun finished => absurd finished goesOn⟩,
    ?_, fun closed => ?_⟩
  · exact absurd (toServer ▸ closed) fin
  · rw [toClient, server]
    exact inv.served
  · exact absurd (server ▸ closed) serving

theorem fgets (inv : DialogInv input s) (h : s.fgets = some s') : DialogInv input s' := by
  obtain ⟨at_, h⟩ := Option.ite_none_right_eq_some.mp h
  have running : s.client ≠ .returned := at_ ▸ nofun
  cases inv.talk with
  | waiting _ _ _ _ _ _ wait _ =>
      rw [at_] at wait
      exact wait.elim
  | finished _ _ finished _ => exact absurd finished running
  | idle done lines answered shown _ empty =>
      rw [Dialog.flight, at_] at empty
      by_cases last : s.stdin = []
      · rw [if_pos last] at h
        cases h
        rw [last, fgetsLines_nil, List.append_nil] at lines
        obtain ⟨-, serving, -⟩ := inv.connected running
        exact ⟨.finished (lines ▸ answered) (lines ▸ shown) rfl empty, inv.writing,
          ⟨fun _ => rfl, fun _ => rfl⟩, inv.served, fun closed => absurd closed serving⟩
      · rw [if_neg last] at h
        cases h
        rw [fgetsLines_of_ne room_pos last] at lines
        obtain ⟨waits, stored, toSocket⟩ :=
          afterWrite_spec (cString (takeLine room s.stdin ++ [0]))
        refine inv.ofClient running waits.ne_returned (.waiting done _ lines answered shown
          (fgetsLine_takeLine room s.stdin) waits ?_) rfl rfl rfl
        simp only [StrCliPc.toSocket, List.append_nil, List.append_eq_nil_iff] at empty
        obtain ⟨toClient, server, toServer⟩ := empty
        rw [Dialog.flight, stored, toSocket, toClient, server, toServer]
        exact cString_append_nul _ []

theorem writen {k : Nat} (inv : DialogInv input s) (h : s.writen k = some s') :
    DialogInv input s' := by
  unfold Dialog.writen at h
  split at h
  · rename_i rest at_
    obtain ⟨⟨out, left⟩, some, h⟩ := Option.bind_eq_some_iff.mp h
    cases h
    have moved := Pipe.writeSome_spec some
    have running : s.client ≠ .returned := at_ ▸ nofun
    obtain ⟨waits, stored, toSocket⟩ := afterWrite_spec left
    refine inv.ofClient running waits.ne_returned ?_ rfl rfl rfl
    cases inv.talk with
    | idle _ _ _ _ at' _ =>
        rw [at_] at at'
        cases at'
    | finished _ _ finished _ => exact absurd finished running
    | waiting done line lines answered shown form _ text =>
        refine .waiting done line lines answered shown form waits ?_
        rw [Dialog.flight, at_] at text
        rw [← text, Dialog.flight, stored, toSocket, Pipe.write_data, List.append_assoc, moved]
        rfl
  · cases h

theorem ended_or_waits {stored : Block} {c : UInt8} (waits : (StrCliPc.readline stored).Waiting)
    (goesOn : ¬ ([c] = [newline] ∨ (stored ++ [c]).length = room)) :
    (StrCliPc.readline (stored ++ [c])).Waiting := by
  obtain ⟨noNewline, short⟩ := waits
  rw [not_or, List.singleton_inj] at goesOn
  constructor
  · rw [List.mem_append, List.mem_singleton]
    rintro (early | rfl)
    · exact noNewline early
    · exact goesOn.1 rfl
  · have full := goesOn.2
    rw [List.length_append, List.length_singleton] at full ⊢
    omega

theorem read {n : Nat} (inv : DialogInv input s) (h : s.read n = some s') :
    DialogInv input s' := by
  unfold Dialog.read at h
  split at h
  · rename_i stored at_
    obtain ⟨⟨bytes, toClient⟩, some, h⟩ := Option.bind_eq_some_iff.mp h
    cases h
    have moved := Pipe.read_spec some
    have running : s.client ≠ .returned := at_ ▸ nofun
    cases inv.talk with
    | idle _ _ _ _ at' _ =>
        rw [at_] at at'
        cases at'
    | finished _ _ finished _ => exact absurd finished running
    | waiting done line lines answered shown form waits text =>
        have more : bytes ≠ [] := fun ending =>
          (inv.connected running).2.2 (moved.atEnd ending).2
        obtain ⟨c, rfl⟩ : ∃ c, bytes = [c] := List.length_eq_one_iff.mp
          (le_antisymm (Pipe.length_le_of_read some) (List.length_pos_iff.mpr more))
        rw [Dialog.flight, at_, ← moved.stream] at text
        rw [at_] at waits
        rw [Dialog.received, if_neg more]
        split
        · rename_i ends
          have got : StrCliPc.stored (.readline stored) ++ ([c] ++ toClient.data ++
              (s.server.pc.toSocket ++ (s.toServer.data ++ StrCliPc.toSocket (.readline stored)))) =
            (stored ++ [c]) ++ (toClient.data ++ (s.server.pc.toSocket ++ s.toServer.data)) := by
            simp [StrCliPc.stored, StrCliPc.toSocket]
          have last : (stored ++ [c]).getLast? = Option.some newline ∨
              (stored ++ [c]).length = room := by
            rw [List.getLast?_concat, Option.some_inj, ← List.singleton_inj]
            exact ends
          obtain ⟨now, nothing, whole⟩ := answered_of_read form (got ▸ text) last
          refine inv.ofClient running nofun
            (.idle (done ++ [line]) ?_ ?_ ?_ rfl ?_) rfl rfl moved.closed
          · rw [List.append_assoc]
            exact lines
          · exact List.forall_mem_append.mpr ⟨answered, List.forall_mem_singleton.mpr now⟩
          · rw [Dialog.fputs, whole, shown, List.flatMap_append, List.flatMap_singleton]
          · rw [Dialog.flight]
            simpa [Dialog.fputs, StrCliPc.toSocket] using nothing
        · rename_i goesOn
          refine inv.ofClient running nofun ?_ rfl rfl moved.closed
          refine .waiting done line lines answered shown form (ended_or_waits waits goesOn) ?_
          rw [← text]
          simp [Dialog.flight, StrCliPc.stored, StrCliPc.toSocket]
  · cases h

theorem serverRead {n : Nat} (inv : DialogInv input s) (h : s.serverRead n = some s') :
    DialogInv input s' := by
  unfold Dialog.serverRead at h
  split at h
  · rename_i at_
    obtain ⟨⟨bytes, toServer⟩, some, h⟩ := Option.bind_eq_some_iff.mp h
    have moved := Pipe.read_spec some
    by_cases ending : bytes = []
    · simp only [ending, if_true] at h
      cases h
      have finished := inv.fin.mp (moved.atEnd ending).2
      have same : toServer.data = s.toServer.data := by rw [← moved.stream, ending]; rfl
      constructor
      case talk =>
        refine inv.talk.moved rfl rfl rfl ?_
        simp [Dialog.flight, at_, same, ServerPc.toSocket]
      case writing =>
        intro rest writes
        cases writes
      case fin => simpa only [moved.closed] using inv.fin
      case served => exact ⟨fun _ => rfl, fun _ => rfl⟩
      case leaves => exact fun _ => finished
    · simp only [ending, if_false] at h
      cases h
      constructor
      case talk =>
        refine inv.talk.moved rfl rfl rfl ?_
        simp [Dialog.flight, at_, ServerPc.toSocket, take_fill, ← moved.stream]
      case writing =>
        intro rest writes
        simp only [take_fill] at writes
        cases writes
        exact ending
      case fin => simpa only [moved.closed] using inv.fin
      case served =>
        constructor
        · intro closed
          have reading := inv.served.mp closed
          rw [at_] at reading
          cases reading
        · intro closed
          cases closed
      case leaves =>
        intro closed
        cases closed
  · cases h

/-- A step of a server that goes on writing to its socket. -/
theorem ofServer {toClient : Pipe} {server : Server} (inv : DialogInv input s)
    (serving : s.toClient.closed ≠ true) (running : server.pc ≠ .closed)
    (flight : { s with toClient, server }.flight = s.flight)
    (writing : ∀ rest, server.pc = .write rest → rest ≠ [])
    (closed : toClient.closed = s.toClient.closed) :
    DialogInv input { s with toClient, server } where
  talk := inv.talk.moved rfl rfl rfl flight
  writing := writing
  fin := inv.fin
  served := ⟨fun now => absurd (closed ▸ now) serving, fun gone => absurd gone running⟩
  leaves gone := absurd gone running

theorem serverWrite {k : Nat} (inv : DialogInv input s) (h : s.serverWrite k = some s') :
    DialogInv input s' := by
  unfold Dialog.serverWrite at h
  split at h
  · rename_i rest at_
    obtain ⟨⟨out, left⟩, some, h⟩ := Option.bind_eq_some_iff.mp h
    have moved := Pipe.writeSome_spec some
    have serving : s.toClient.closed ≠ true := fun closed => by
      have writes := inv.served.mp closed
      rw [at_] at writes
      cases writes
    cases h
    by_cases last : left = []
    · simp only [last, if_true]
      rw [last, List.append_nil] at moved
      have goesOn : DialogInv input
          { s with
            toClient := s.toClient.write out
            server := ⟨.read, List.replicate EchoTcp.MAXLINE 0⟩ } := by
        apply inv.ofServer serving (by decide)
        · simp [Dialog.flight, at_, ServerPc.toSocket, moved]
        · intro rest writes
          cases writes
        · rfl
      exact goesOn
    · simp only [last, if_false]
      have goesOn : DialogInv input
          { s with toClient := s.toClient.write out, server := ⟨.write left, s.server.buff⟩ } := by
        apply inv.ofServer serving (by simp)
        · simp [Dialog.flight, at_, ServerPc.toSocket, ← moved]
        · intro rest writes
          cases writes
          exact last
        · rfl
      exact goesOn
  · cases h

theorem step {act : DialogAction} (inv : DialogInv input s) (h : DialogStep s act s') :
    DialogInv input s' := by
  cases act with
  | fgets => exact inv.fgets h
  | writen k => exact inv.writen h
  | read n => exact inv.read h
  | serverRead n => exact inv.serverRead h
  | serverWrite k => exact inv.serverWrite h

end DialogInv

theorem reachable_of_logged {s t : Dialog} (h : Reachable (Guarded Dialog.Logged DialogStep) s t) :
    Reachable DialogStep s t := by
  obtain ⟨as, run⟩ := h
  exact ⟨as, run.mono fun _ _ _ step => step.2⟩

theorem inv_of_dialog {input buff : Block} {s : Dialog}
    (h : Reachable DialogStep (.init input buff) s) : DialogInv input s :=
  h.invariant (.init input buff) fun _ _ _ inv hstep => inv.step hstep

/-! ## The log line -/

section Logged

variable {input : Block} {s s' : Dialog}

/-- Never more than one line is on its way. -/
theorem length_flight_le (inv : DialogInv input s) : s.flight.length ≤ room := by
  cases inv.talk with
  | idle _ _ _ _ _ empty | finished _ _ _ empty =>
      rw [empty]
      exact Nat.zero_le _
  | waiting done line lines answered shown form waits text =>
      have whole := congrArg List.length text
      have cut := strlen_le line
      have short := form.short
      rw [List.length_append] at whole
      rw [strlen] at cut
      omega

/-- The last byte of `buff` is a NUL, and no line comes up to it. -/
theorem logged_of_buff (inv : DialogInv input s) (nul : 0 ∈ s.server.buff.drop room)
    (act : DialogAction) : s.Logged act := by
  cases act with
  | serverRead n =>
      intro _
      have short := length_flight_le inv
      simp only [Dialog.flight, List.length_append] at short
      have taken : (s.toServer.data.take n).length ≤ room :=
        (List.length_take_le' n _).trans (by omega)
      exact List.mem_append_right _ ((List.drop_sublist_drop_left _ taken).mem nul)
  | _ => trivial

/-- The buffer behind the `memset`. -/
theorem nul_mem_drop : 0 ∈ (List.replicate EchoTcp.MAXLINE (0 : UInt8)).drop room := by
  rw [List.drop_replicate]
  exact List.mem_replicate.mpr ⟨by decide, rfl⟩

/-- The client's steps leave the server alone. -/
theorem server_step {act : DialogAction} (h : DialogStep s act s') :
    s'.server = s.server ∨ (∃ n, s.serverRead n = some s') ∨ ∃ k, s.serverWrite k = some s' := by
  cases act with
  | fgets =>
      obtain ⟨-, h⟩ := Option.ite_none_right_eq_some.mp h
      left
      split at h <;> cases h <;> rfl
  | writen k =>
      simp only [DialogStep, Dialog.step, Dialog.writen] at h
      left
      split at h
      · obtain ⟨_, -, h⟩ := Option.bind_eq_some_iff.mp h
        cases h
        rfl
      · cases h
  | read n =>
      simp only [DialogStep, Dialog.step, Dialog.read] at h
      left
      split at h
      · obtain ⟨_, -, h⟩ := Option.bind_eq_some_iff.mp h
        cases h
        rw [Dialog.received]
        split_ifs <;> rfl
      · cases h
  | serverRead n => exact .inr (.inl ⟨n, h⟩)
  | serverWrite k => exact .inr (.inr ⟨k, h⟩)

theorem buff_step {act : DialogAction} (inv : DialogInv input s)
    (nul : 0 ∈ s.server.buff.drop room) (h : DialogStep s act s') :
    0 ∈ s'.server.buff.drop room := by
  obtain same | ⟨n, h⟩ | ⟨k, h⟩ := server_step h
  · rw [same]
    exact nul
  · unfold Dialog.serverRead at h
    split at h
    · obtain ⟨⟨bytes, toServer⟩, some, h⟩ := Option.bind_eq_some_iff.mp h
      have short := length_flight_le inv
      simp only [Dialog.flight, List.length_append] at short
      have taken := congrArg List.length (Pipe.read_spec some).stream
      rw [List.length_append] at taken
      dsimp only at h
      split at h
      · cases h
        exact nul
      · cases h
        rw [fill, List.drop_append, List.drop_drop, Nat.add_sub_cancel' (by omega)]
        exact List.mem_append_right _ nul
    · cases h
  · unfold Dialog.serverWrite at h
    split at h
    · obtain ⟨⟨out, left⟩, -, h⟩ := Option.bind_eq_some_iff.mp h
      cases h
      dsimp only
      split
      · exact nul_mem_drop
      · exact nul
    · cases h

/-- If the last byte of `buff` happens to be NUL before the first `read`, the log line never runs
over the end. -/
theorem logged_of_nul {buff : Block} {as : List DialogAction} (nul : 0 ∈ buff.drop room)
    (run : Steps DialogStep (.init input buff) as s) :
    Steps (Guarded Dialog.Logged DialogStep) (.init input buff) as s := by
  have all {s : Dialog} {as : List DialogAction} {t : Dialog} (run : Steps DialogStep s as t)
      (inv : DialogInv input s) (nul : 0 ∈ s.server.buff.drop room) :
      Steps (Guarded Dialog.Logged DialogStep) s as t := by
    induction run with
    | nil => exact .nil _
    | cons first _ ih =>
        refine .cons ⟨logged_of_buff inv nul _, first⟩ ?_
        exact ih (inv.step first) (buff_step inv nul first)
  exact all run (.init input buff) nul

end Logged

/-! ## The end of the dialog -/

/-- Every byte has four more calls in front of it, and both ends have one more close. -/
def Dialog.rank (s : Dialog) : Nat :=
  5 * s.stdin.length + 4 * s.client.toSocket.length + 3 * s.toServer.data.length +
    2 * s.server.pc.toSocket.length + s.toClient.data.length +
    (if s.client = .returned then 0 else 1) + (if s.server.pc = .closed then 0 else 1)

section Rank

variable {input : Block} {s s' : Dialog}

theorem rank_fgets (h : s.fgets = some s') : s'.rank < s.rank := by
  obtain ⟨at_, h⟩ := Option.ite_none_right_eq_some.mp h
  by_cases last : s.stdin = []
  · rw [if_pos last] at h
    cases h
    simp [Dialog.rank, at_, StrCliPc.toSocket]
  · rw [if_neg last] at h
    cases h
    obtain ⟨waits, -, toSocket⟩ :=
      afterWrite_spec (cString (takeLine room s.stdin ++ [0]))
    have sent : (cString (takeLine room s.stdin ++ [0])).length ≤
        (takeLine room s.stdin).length := by
      rw [cString_append_nul]
      exact (List.takeWhile_prefix _).length_le
    have taken := List.length_pos_iff.mpr (takeLine_ne_nil room_pos last)
    have split := congrArg List.length (nextLine_takeLine room s.stdin).split
    rw [List.length_append] at split
    simp only [Dialog.rank, toSocket, at_, if_neg waits.ne_returned, if_neg fgets_ne_returned]
    simp only [StrCliPc.toSocket, List.length_nil]
    omega

theorem rank_writen {k : Nat} (h : s.writen k = some s') : s'.rank < s.rank := by
  unfold Dialog.writen at h
  split at h
  · rename_i rest at_
    obtain ⟨⟨out, left⟩, some, h⟩ := Option.bind_eq_some_iff.mp h
    cases h
    obtain ⟨waits, -, toSocket⟩ := afterWrite_spec left
    have moved := congrArg List.length (Pipe.writeSome_spec some)
    have positive := Pipe.writeSome_pos some
    rw [List.length_append] at moved
    simp only [Dialog.rank, toSocket, at_, if_neg waits.ne_returned, Pipe.write_data,
      List.length_append]
    simp only [StrCliPc.toSocket, reduceCtorEq, if_false]
    omega
  · cases h

theorem rank_read {n : Nat} (inv : DialogInv input s) (h : s.read n = some s') :
    s'.rank < s.rank := by
  unfold Dialog.read at h
  split at h
  · rename_i stored at_
    obtain ⟨⟨bytes, toClient⟩, some, h⟩ := Option.bind_eq_some_iff.mp h
    cases h
    have moved := Pipe.read_spec some
    obtain ⟨-, serving, serves⟩ := inv.connected (at_ ▸ nofun)
    have more : bytes ≠ [] := fun ending => serves (moved.atEnd ending).2
    have positive := List.length_pos_iff.mpr more
    have stream := congrArg List.length moved.stream
    rw [List.length_append] at stream
    rw [Dialog.received, if_neg more]
    split <;>
      simp only [Dialog.rank, Dialog.fputs, at_, StrCliPc.toSocket, serving, reduceCtorEq,
        if_false] <;>
      omega
  · cases h

theorem rank_serverRead {n : Nat} (h : s.serverRead n = some s') : s'.rank < s.rank := by
  unfold Dialog.serverRead at h
  split at h
  · rename_i at_
    obtain ⟨⟨bytes, toServer⟩, some, h⟩ := Option.bind_eq_some_iff.mp h
    have moved := Pipe.read_spec some
    have stream := congrArg List.length moved.stream
    rw [List.length_append] at stream
    by_cases ending : bytes = []
    · simp only [ending, if_true] at h
      cases h
      simp only [Dialog.rank, at_, ServerPc.toSocket, Pipe.close_data, reduceCtorEq, if_false,
        if_true]
      omega
    · simp only [ending, if_false] at h
      cases h
      have positive := List.length_pos_iff.mpr ending
      simp only [Dialog.rank, at_, ServerPc.toSocket, take_fill, reduceCtorEq, if_false,
        List.length_nil]
      omega
  · cases h

theorem rank_serverWrite {k : Nat} (h : s.serverWrite k = some s') : s'.rank < s.rank := by
  unfold Dialog.serverWrite at h
  split at h
  · rename_i rest at_
    obtain ⟨⟨out, left⟩, some, h⟩ := Option.bind_eq_some_iff.mp h
    have moved := congrArg List.length (Pipe.writeSome_spec some)
    have positive := Pipe.writeSome_pos some
    rw [List.length_append] at moved
    cases h
    by_cases last : left = []
    · simp only [Dialog.rank, last, at_, ServerPc.toSocket, Pipe.write_data, List.length_append,
        reduceCtorEq, if_false, if_true, List.length_nil]
      rw [last, List.length_nil] at moved
      omega
    · simp only [Dialog.rank, last, at_, ServerPc.toSocket, Pipe.write_data, List.length_append,
        reduceCtorEq, if_false]
      omega
  · cases h

theorem ranked_dialog (input : Block) :
    Ranked DialogStep (DialogInv input) Dialog.rank where
  keeps _ _ _ inv h := inv.step h
  falls s act s' inv h := by
    cases act with
    | fgets => exact rank_fgets h
    | writen k => exact rank_writen h
    | read n => exact rank_read inv h
    | serverRead n => exact rank_serverRead h
    | serverWrite k => exact rank_serverWrite h

theorem step_of_stuck (stuck : Stuck DialogStep s) (act : DialogAction) : s.step act = none :=
  Option.eq_none_iff_forall_ne_some.mpr fun s' => stuck act s'

/-- Where no call can be made, nothing is on its way. -/
theorem flight_of_stuck (inv : DialogInv input s) (stuck : Stuck DialogStep s)
    (waits : s.client.Waiting) : s.flight = [] := by
  have none := step_of_stuck stuck
  have answer : s.server.pc.toSocket = [] := by
    cases at_ : s.server.pc with
    | read | closed => rfl
    | write rest =>
        have write := none (.serverWrite 1)
        simp [Dialog.step, Dialog.serverWrite, at_,
          Pipe.writeSome_one (inv.writing rest at_)] at write
  have sent : s.toServer.data = [] := by
    by_contra some
    cases at_ : s.server.pc with
    | read =>
        have read := none (.serverRead 1)
        simp only [Dialog.step, Dialog.serverRead, at_,
          Pipe.read_of_ne EchoTcp.MAXLINE some (Nat.zero_lt_succ _), Option.bind_eq_bind,
          Option.bind_some] at read
        split at read <;> cases read
    | write rest => exact inv.writing rest at_ (by rw [at_] at answer; exact answer)
    | closed => exact (inv.connected waits.ne_returned).2.1 at_
  cases at_ : s.client with
  | fgets | returned | terminatedPrematurely =>
      rw [at_] at waits
      exact waits.elim
  | writen rest =>
      rw [at_] at waits
      have write := none (.writen 1)
      simp [Dialog.step, Dialog.writen, at_, Pipe.writeSome_one waits] at write
  | readline stored =>
      have received : s.toClient.data = [] := by
        by_contra some
        have read := none (.read 1)
        simp [Dialog.step, Dialog.read, at_, Pipe.read_of_ne 1 some le_rfl] at read
      rw [Dialog.flight, received, answer, sent, at_]
      rfl

theorem readline_of_empty (waits : s.client.Waiting) (empty : s.flight = []) :
    ∃ stored, s.client = .readline stored := by
  cases at_ : s.client with
  | fgets | returned | terminatedPrematurely =>
      rw [at_] at waits
      exact waits.elim
  | writen rest =>
      rw [at_] at waits
      simp only [Dialog.flight, at_, List.append_eq_nil_iff] at empty
      exact absurd empty.2.2.2 waits
  | readline stored => exact ⟨stored, rfl⟩

theorem read_of_empty (inv : DialogInv input s) (empty : s.flight = [])
    (serving : s.server.pc ≠ .closed) : s.server.pc = .read := by
  cases at_ : s.server.pc with
  | read => rfl
  | closed => exact absurd at_ serving
  | write rest =>
      simp only [Dialog.flight, at_, List.append_eq_nil_iff] at empty
      exact absurd empty.2.1 (inv.writing rest at_)

end Rank

/-- The client is always in step with the server. What it has printed is a log line and an answer
for each of the lines in front of the one that it waits for, and only that one is on its way. The
server is never found gone. -/
theorem in_step {input buff : Block} {s : Dialog}
    (h : Reachable (Guarded Dialog.Logged DialogStep) (.init input buff) s) :
    (∃ done, done <+: fgetsLines room input ∧ (∀ line ∈ done, Answered line) ∧
      s.stdout = done.flatMap Dialog.shown) ∧
    (s.client = .fgets ∨ s.client = .returned → s.flight = []) ∧
    s.client ≠ .terminatedPrematurely := by
  cases (inv_of_dialog (reachable_of_logged h)).talk with
  | idle done lines answered shown at_ empty =>
      exact ⟨⟨done, ⟨_, lines.symm⟩, answered, shown⟩, fun _ => empty, at_ ▸ nofun⟩
  | waiting done line lines answered shown form waits text =>
      refine ⟨⟨done, ⟨_, lines.symm⟩, answered, shown⟩, ?_, ?_⟩
      · rintro (at_ | at_) <;> (rw [at_] at waits; exact waits.elim)
      · intro at_
        rw [at_] at waits
        exact waits
  | finished answered shown at_ empty =>
      exact ⟨⟨_, List.prefix_rfl, answered, shown⟩, fun _ => empty, at_ ▸ nofun⟩

/-- A line is half on its way to the server. -/
theorem in_step_half :
    ∃ s, Reachable (Guarded Dialog.Logged DialogStep)
        (.init [104, 105, 10] (List.replicate EchoTcp.MAXLINE 0)) s ∧
      s.client = .writen [10] ∧ s.toServer.data = [104, 105] ∧
      s.client ≠ .terminatedPrematurely := by
  have run : ∃ s, Steps DialogStep (.init [104, 105, 10] (List.replicate EchoTcp.MAXLINE 0))
      [.fgets, .writen 2] s ∧ s.client = .writen [10] ∧ s.toServer.data = [104, 105] :=
    ⟨_, Steps.of_foldlM_option rfl, rfl, rfl⟩
  obtain ⟨s, steps, rest, sent⟩ := run
  have logged := logged_of_nul nul_mem_drop steps
  exact ⟨s, ⟨_, logged⟩, rest, sent, (in_step ⟨_, logged⟩).2.2⟩

/-- The dialog always comes to an end. It ends with all lines of the input printed and both
processes gone exactly if every line is answered. Else both wait for each other for ever, at the
first line that holds a NUL or has no newline at its end and room for one. -/
theorem dialog_ends {input buff : Block} {as : List DialogAction} {s : Dialog}
    (logged : Steps (Guarded Dialog.Logged DialogStep) (.init input buff) as s) :
    as.length ≤ 5 * input.length + 2 ∧
    (Stuck DialogStep s →
      (s.client = .returned ↔ ∀ line ∈ fgetsLines room input, Answered line) ∧
      (s.client = .returned → s.stdout = (fgetsLines room input).flatMap Dialog.shown ∧
        s.server.pc = .closed) ∧
      (s.client ≠ .returned → ∃ done line rest, fgetsLines room input = done ++ line :: rest ∧
        (∀ line ∈ done, Answered line) ∧ ¬ Answered line ∧
        s.stdout = done.flatMap Dialog.shown ∧ s.client = .readline (cString line) ∧
        s.server.pc = .read)) := by
  have run := logged.mono fun _ _ _ step => step.2
  have inv := inv_of_dialog ⟨as, run⟩
  constructor
  · have bound := (ranked_dialog input).length_le run (.init input buff)
    have start : (Dialog.init input buff).rank = 5 * input.length + 2 := rfl
    omega
  · intro stuck
    have none := step_of_stuck stuck
    cases inv.talk with
    | idle done lines answered shown at_ empty =>
        have goesOn := none .fgets
        rw [Dialog.step, Dialog.fgets, if_pos at_] at goesOn
        split at goesOn <;> cases goesOn
    | waiting done line lines answered shown form waits text =>
        have empty := flight_of_stuck inv stuck waits
        have running := waits.ne_returned
        obtain ⟨stored, at_⟩ := readline_of_empty waits empty
        rw [at_] at waits
        rw [empty, at_, List.append_nil] at text
        have refused := not_answered_of_wait text waits.1 waits.2
        refine ⟨⟨fun finished => absurd finished running, fun all => absurd (all line ?_) refused⟩,
          fun finished => absurd finished running,
          fun _ => ⟨done, line, _, lines, answered, refused, shown,
            at_.trans (congrArg StrCliPc.readline text), ?_⟩⟩
        · rw [lines]
          exact List.mem_append_right _ List.mem_cons_self
        · exact read_of_empty inv empty (inv.connected running).2.1
    | finished answered shown at_ empty =>
        refine ⟨⟨fun _ => answered, fun _ => at_⟩,
          fun _ => ⟨shown, ?_⟩,
          fun running => absurd at_ running⟩
        by_contra serving
        have reading := read_of_empty inv empty serving
        have drained := empty
        rw [Dialog.flight, reading] at drained
        simp only [ServerPc.toSocket, List.nil_append, List.append_eq_nil_iff] at drained
        have last := none (.serverRead 0)
        simp [Dialog.step, Dialog.serverRead, reading,
          Pipe.read_of_closed _ drained.2.1 (inv.fin.mpr at_)] at last

theorem dialog_ends_hi :
    ∃ as s, Steps (Guarded Dialog.Logged DialogStep)
        (.init [104, 105, 10] (List.replicate EchoTcp.MAXLINE 0)) as s ∧
      s.client = .returned ∧ s.stdout = ascii "[D] client recv[3]:hi\n\n\r\nhi\n" ∧
      s.server.pc = .closed := by
  obtain ⟨as, s, steps, stuck⟩ := (ranked_dialog [104, 105, 10]).exists_stuck
    (.init _ (List.replicate EchoTcp.MAXLINE 0))
  have run := logged_of_nul nul_mem_drop steps
  obtain ⟨returns, whole, -⟩ := (dialog_ends run).2 stuck
  have lines : fgetsLines room [104, 105, 10] = [[104, 105, 10]] := by
    rw [fgetsLines_of_ne room_pos (List.cons_ne_nil _ _)]
    exact congrArg (List.cons [104, 105, 10]) (fgetsLines_nil room)
  have answered : ∀ line ∈ fgetsLines room [104, 105, 10], Answered line := by
    rw [lines]
    exact List.forall_mem_singleton.mpr ⟨by decide, .inl rfl⟩
  have returned := returns.mpr answered
  obtain ⟨stdout, closed⟩ := whole returned
  rw [lines] at stdout
  exact ⟨as, s, run, returned, stdout, closed⟩

end UnixProgramming.EchoTcp
