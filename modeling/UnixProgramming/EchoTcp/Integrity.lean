import UnixProgramming.EchoTcp.Session
import UnixProgramming.Library.Fallible

/-!
# What the client writes to standard output

The bytes of standard input are, in order, at one of seven places between the
client's input and its output. `strlen(sendline)` is the one place where bytes can be
cut or added: it is the number of bytes read exactly when these contain no NUL and one
follows them in memory.
-/

namespace UnixProgramming.EchoTcp

open CMemory Transition

namespace ClientPc

/-- What a `Writen` to standard output still has to write. -/
def toStdout : ClientPc → List UInt8
  | writeStdout rest _ => rest
  | _ => []

/-- What a `Writen` to the socket still has to write. -/
def toSocket : ClientPc → List UInt8
  | writeSocket rest => rest
  | _ => []

/-- The client does not come to standard input before its next `select`. -/
def SocketOnly : ClientPc → Prop
  | readSocket stdin | writeStdout _ stdin => stdin = false
  | readStdin | writeSocket _ => False
  | _ => True

/-- The client goes on after its next system call. -/
def Running (pc : ClientPc) : Prop := pc ≠ normalExit ∧ pc ≠ terminatedPrematurely

theorem afterSocket_spec (stdin : Bool) : (afterSocket stdin).toStdout = [] ∧
    (afterSocket stdin).toSocket = [] ∧ (stdin = false → (afterSocket stdin).SocketOnly) ∧
    (afterSocket stdin).Running := by
  cases stdin <;> simp [afterSocket, toStdout, toSocket, SocketOnly, Running]

theorem writenStdout_spec (rest : List UInt8) (stdin : Bool) :
    (writenStdout rest stdin).toStdout = rest ∧ (writenStdout rest stdin).toSocket = [] ∧
      (stdin = false → (writenStdout rest stdin).SocketOnly) ∧
      (writenStdout rest stdin).Running := by
  rw [writenStdout]
  split
  · rename_i empty
    simpa [empty] using afterSocket_spec stdin
  · simp [toStdout, toSocket, SocketOnly, Running]

theorem writenSocket_spec (rest : List UInt8) :
    (writenSocket rest).toStdout = [] ∧ (writenSocket rest).toSocket = rest ∧
      (writenSocket rest).Running := by
  rw [writenSocket]
  split
  · rename_i empty
    simp [empty, toStdout, toSocket, Running]
  · simp [toStdout, toSocket, Running]

end ClientPc

/-- What the server's `Writen` still has to write. -/
def ServerPc.toSocket : ServerPc → List UInt8
  | write rest => rest
  | _ => []

/-- The bytes at every place from standard output back to standard input. -/
def Session.inTransit (s : Session) : List UInt8 :=
  s.client.stdout ++ (s.client.pc.toStdout ++ (s.toClient.data ++ (s.server.pc.toSocket ++
    (s.toServer.data ++ (s.client.pc.toSocket ++ s.client.stdin.data)))))

/-- Each nonempty chunk read from standard input has no NUL byte and is followed in memory
by one, in what `sendline` held before or behind its end. The server's `buff` has a NUL in it
when the log line prints it. -/
def Terminated (s : Session) : Action → Prop
  | .readStdin n beyond => n ≠ 0 →
      0 ∉ s.client.stdin.data.take n ∧ cString (s.client.sendline.drop n ++ beyond) = []
  | .serverRead n => n ≠ 0 → 0 ∈ fill s.server.buff (s.toServer.data.take n)
  | _ => True

instance (s : Session) : DecidablePred (Terminated s)
  | .readStdin n beyond => inferInstanceAs (Decidable (n ≠ 0 →
      0 ∉ s.client.stdin.data.take n ∧ cString (s.client.sendline.drop n ++ beyond) = []))
  | .serverRead n =>
      inferInstanceAs (Decidable (n ≠ 0 → 0 ∈ fill s.server.buff (s.toServer.data.take n)))
  | .select _ _ | .readSocket _ | .writeStdout _ | .writeSocket _ | .serverWrite _ =>
      .isTrue trivial

/-- Nothing is lost between the two ends, and the connection is closed from the client's
end of file to the server's and back. -/
structure Inv (input : List UInt8) (s : Session) : Prop where
  stream : s.client.pc ≠ .normalExit → s.inTransit = input
  drained : s.client.stdinEof = true → s.client.stdin.data = [] ∧ s.client.pc.SocketOnly
  fin : s.toServer.closed = s.client.stdinEof
  served : s.toClient.closed = true →
    s.toServer.closed = true ∧ s.toServer.data = [] ∧ s.server.pc = .closed
  exit : s.client.pc = .normalExit →
    s.client.stdout = input ++ normalExitLine ∧ s.toClient.closed = true
  alive : s.client.pc ≠ .terminatedPrematurely

theorem inv_init (input : List UInt8) (sendline recvline buff : Block) :
    Inv input (.init input sendline recvline buff) where
  stream _ := by simp [Session.inTransit, Session.init, ClientPc.toStdout, ClientPc.toSocket,
    ServerPc.toSocket]
  drained := by simp [Session.init]
  fin := rfl
  served := by simp [Session.init]
  exit := by simp [Session.init]
  alive := by simp [Session.init]

namespace Inv

variable {input : List UInt8} {s s' : Session}

/-- Standard input is open wherever the client does more than wait for the socket. -/
theorem running (inv : Inv input s) (more : ¬ s.client.pc.SocketOnly) :
    s.client.stdinEof = false := by
  by_contra eof
  have drained := inv.drained (by simpa using eof)
  exact more drained.2

theorem connected (inv : Inv input s) (serving : s.server.pc ≠ .closed) :
    s.toClient.closed = false := by
  by_contra closed
  have served := inv.served (by simpa using closed)
  exact serving served.2.2

/-- A client that has exited has read the server's end of file. -/
theorem ne_normalExit (inv : Inv input s) (serving : s.server.pc ≠ .closed) :
    s.client.pc ≠ .normalExit := by
  intro exit
  have closed := (inv.exit exit).2
  rw [inv.connected serving] at closed
  cases closed

/-- `select` moves no bytes. After the end of input it reports the socket alone. -/
theorem select (inv : Inv input s) {socket stdin : Bool}
    (hstep : s.select socket stdin = some s') : Inv input s' := by
  rw [Session.select] at hstep
  split at hstep
  · rename_i guard
    obtain ⟨pc, reported, stillOpen, -⟩ := guard
    cases hstep
    refine ⟨fun _ => ?_, fun eof => ⟨(inv.drained eof).1, ?_⟩, inv.fin, inv.served, ?_, ?_⟩
    · have stream := inv.stream (by simp [pc])
      rw [Session.inTransit, pc] at stream
      cases socket <;> exact stream
    · have closed : stdin = false := by
        cases stdin with
        | false => rfl
        | true => exact absurd eof (by simp [stillOpen rfl])
      have socketOnly : socket = true := by simpa [closed] using reported
      simp [socketOnly, ClientPc.SocketOnly, closed]
    · cases socket <;> simp
    · cases socket <;> simp
  · cases hstep

theorem readSocket (inv : Inv input s) {n : Nat} (hstep : s.readSocket n = some s') :
    Inv input s' := by
  rw [Session.readSocket] at hstep
  split at hstep
  · rename_i stdin pc
    obtain ⟨⟨bytes, toClient⟩, call, hstep⟩ := Option.bind_eq_some_iff.mp hstep
    have spec := Pipe.read_spec call
    have stream := inv.stream (by simp [pc])
    simp only [Session.inTransit, pc, ClientPc.toStdout, ClientPc.toSocket] at stream
    dsimp only at hstep
    split at hstep
    · rename_i empty
      obtain ⟨noData, closed⟩ := spec.atEnd empty
      obtain ⟨fin, received, server⟩ := inv.served closed
      have eof : s.client.stdinEof = true := inv.fin ▸ fin
      rw [if_pos eof] at hstep
      cases hstep
      refine ⟨nofun, fun _ => ⟨(inv.drained eof).1, trivial⟩, inv.fin,
        fun _ => inv.served closed, fun _ => ⟨?_, spec.closed.trans closed⟩, nofun⟩
      -- every place between the two ends is empty
      have echoed : s.client.stdout = input := by
        simpa [noData, server, received, (inv.drained eof).1, ServerPc.toSocket] using stream
      exact congrArg (· ++ normalExitLine) echoed
    · cases hstep
      rw [take_fill]
      obtain ⟨out, sock, socketOnly, running⟩ := ClientPc.writenStdout_spec bytes stdin
      refine ⟨fun _ => ?_, fun eof => ?_, inv.fin, fun closed => ?_, fun exit => ?_, running.2⟩
      · simpa [Session.inTransit, out, sock, ← spec.stream] using stream
      · have drained := inv.drained eof
        rw [pc] at drained
        exact ⟨drained.1, socketOnly drained.2⟩
      · exact inv.served (spec.closed ▸ closed)
      · exact absurd exit running.1
  · cases hstep

theorem writeStdout (inv : Inv input s) {k : Nat} (hstep : s.writeStdout k = some s') :
    Inv input s' := by
  rw [Session.writeStdout] at hstep
  split at hstep
  · rename_i rest stdin pc
    obtain ⟨⟨out, rest'⟩, call, hstep⟩ := Option.bind_eq_some_iff.mp hstep
    cases hstep
    have stream := inv.stream (by simp [pc])
    simp only [Session.inTransit, pc, ClientPc.toStdout, ClientPc.toSocket,
      ← Pipe.writeSome_spec call] at stream
    obtain ⟨toStdout, toSocket, socketOnly, running⟩ := ClientPc.writenStdout_spec rest' stdin
    refine ⟨fun _ => ?_, fun eof => ?_, inv.fin, inv.served, fun exit => absurd exit running.1,
      running.2⟩
    · simpa [Session.inTransit, toStdout, toSocket] using stream
    · have drained := inv.drained eof
      rw [pc] at drained
      exact ⟨drained.1, socketOnly drained.2⟩
  · cases hstep

/-- The one step with a condition: what is sent is what was read. -/
theorem readStdin (inv : Inv input s) {n : Nat} {beyond : Block}
    (terminated : Terminated s (.readStdin n beyond)) (hstep : s.readStdin n beyond = some s') :
    Inv input s' := by
  rw [Session.readStdin] at hstep
  split at hstep
  · rename_i pc
    obtain ⟨⟨bytes, stdin⟩, call, hstep⟩ := Option.bind_eq_some_iff.mp hstep
    have spec := Pipe.read_spec call
    have stream := inv.stream (by simp [pc])
    simp only [Session.inTransit, pc, ClientPc.toStdout, ClientPc.toSocket] at stream
    have running := inv.running (by simp [pc, ClientPc.SocketOnly])
    dsimp only at hstep
    split at hstep
    · rename_i empty
      have noData := (spec.atEnd empty).1
      have noData' : stdin.data = [] := by simpa [empty, noData] using spec.stream
      cases hstep
      refine ⟨fun _ => ?_, fun _ => ⟨noData', trivial⟩, rfl, fun closed => ?_, ?_, ?_⟩
      · simpa [Session.inTransit, ClientPc.toStdout, ClientPc.toSocket, noData, noData']
          using stream
      · exact ⟨rfl, (inv.served closed).2⟩
      · simp
      · simp
    · rename_i nonempty
      obtain ⟨noNul, ending⟩ := terminated
        (fun zero => nonempty (List.eq_nil_of_length_eq_zero (spec.length.trans zero)))
      rw [← spec.taken] at noNul
      have sent : cString (fill s.client.sendline bytes ++ beyond) = bytes := by
        rw [fill, List.append_assoc, cString_append noNul, spec.length, ending, List.append_nil]
      cases hstep
      rw [take_strlen, sent]
      obtain ⟨toStdout, toSocket, going⟩ := ClientPc.writenSocket_spec bytes
      refine ⟨fun _ => ?_, fun eof => ?_, inv.fin, inv.served,
        fun exit => absurd exit going.1, going.2⟩
      · simpa [Session.inTransit, toStdout, toSocket, ← spec.stream] using stream
      · exact absurd eof (by simp [running])
  · cases hstep

theorem writeSocket (inv : Inv input s) {k : Nat} (hstep : s.writeSocket k = some s') :
    Inv input s' := by
  rw [Session.writeSocket] at hstep
  split at hstep
  · rename_i rest pc
    obtain ⟨⟨out, rest'⟩, call, hstep⟩ := Option.bind_eq_some_iff.mp hstep
    have running := inv.running (by simp [pc, ClientPc.SocketOnly])
    cases hstep
    have stream := inv.stream (by simp [pc])
    simp only [Session.inTransit, pc, ClientPc.toStdout, ClientPc.toSocket,
      ← Pipe.writeSome_spec call] at stream
    obtain ⟨toStdout, toSocket, going⟩ := ClientPc.writenSocket_spec rest'
    refine ⟨fun _ => ?_, fun eof => ?_, inv.fin, fun closed => ?_, fun exit => absurd exit going.1,
      going.2⟩
    · simpa [Session.inTransit, toStdout, toSocket] using stream
    · exact absurd eof (by simp [running])
    · have fin := (inv.served closed).1
      simp [inv.fin, running] at fin
  · cases hstep

theorem serverRead (inv : Inv input s) {n : Nat} (hstep : s.serverRead n = some s') :
    Inv input s' := by
  rw [Session.serverRead] at hstep
  split at hstep
  · rename_i pc
    obtain ⟨⟨bytes, toServer⟩, call, hstep⟩ := Option.bind_eq_some_iff.mp hstep
    have spec := Pipe.read_spec call
    have connected := inv.connected (by simp [pc])
    have running := inv.ne_normalExit (by simp [pc])
    have stream := inv.stream running
    simp only [Session.inTransit, pc, ServerPc.toSocket] at stream
    dsimp only at hstep
    split at hstep
    · rename_i empty
      obtain ⟨noData, closed⟩ := spec.atEnd empty
      have noData' : toServer.data = [] := by simpa [empty, noData] using spec.stream
      cases hstep
      refine ⟨fun _ => ?_, inv.drained, spec.closed.trans inv.fin,
        fun _ => ⟨spec.closed.trans closed, noData', rfl⟩, fun exit => absurd exit running,
        inv.alive⟩
      simpa [Session.inTransit, ServerPc.toSocket, noData, noData'] using stream
    · cases hstep
      rw [take_fill]
      refine ⟨fun _ => ?_, inv.drained, spec.closed.trans inv.fin, fun closed => ?_,
        fun exit => absurd exit running, inv.alive⟩
      · simpa [Session.inTransit, ServerPc.toSocket, ← spec.stream] using stream
      · simp [connected] at closed
  · cases hstep

theorem serverWrite (inv : Inv input s) {k : Nat} (hstep : s.serverWrite k = some s') :
    Inv input s' := by
  rw [Session.serverWrite] at hstep
  split at hstep
  · rename_i rest pc
    obtain ⟨⟨out, rest'⟩, call, hstep⟩ := Option.bind_eq_some_iff.mp hstep
    have connected := inv.connected (by simp [pc])
    have running := inv.ne_normalExit (by simp [pc])
    have stream := inv.stream running
    simp only [Session.inTransit, pc, ServerPc.toSocket, ← Pipe.writeSome_spec call] at stream
    cases hstep
    refine ⟨fun _ => ?_, inv.drained, inv.fin, fun closed => ?_,
      fun exit => absurd exit running, inv.alive⟩
    · by_cases done : rest' = []
      · simpa [Session.inTransit, ServerPc.toSocket, done] using stream
      · simpa [Session.inTransit, ServerPc.toSocket, done] using stream
    · simp [connected] at closed
  · cases hstep

theorem step (inv : Inv input s) {act : Action} (terminated : Terminated s act)
    (hstep : Step s act s') : Inv input s' := by
  cases act with
  | select socket stdin => exact inv.select hstep
  | readSocket n => exact inv.readSocket hstep
  | writeStdout k => exact inv.writeStdout hstep
  | readStdin n beyond => exact inv.readStdin terminated hstep
  | writeSocket k => exact inv.writeSocket hstep
  | serverRead n => exact inv.serverRead hstep
  | serverWrite k => exact inv.serverWrite hstep

end Inv

/-- The client never finds the server gone, and its output at the normal exit is its input, with
`last` behind it. -/
structure EchoIntact (input last : Block) (s : Session) : Prop where
  alive : s.client.pc ≠ .terminatedPrematurely
  echoed : s.client.pc = .normalExit → s.client.stdout = input ++ last

/-- End-to-end integrity of every run whose strings are all terminated. -/
theorem echo_intact {input : List UInt8} {sendline recvline buff : Block} {s : Session}
    (h : Reachable (Guarded Terminated Step) (.init input sendline recvline buff) s) :
    EchoIntact input normalExitLine s := by
  have inv : Inv input s := h.invariant (inv_init input sendline recvline buff)
    fun _ _ _ inv hstep => inv.step hstep.1 hstep.2
  exact ⟨inv.alive, fun exit => (inv.exit exit).1⟩

/-- The session on zeroed buffers, as after a `memset` that the source lacks. -/
def Session.zeroed (input : List UInt8) : Session :=
  .init input (List.replicate MAXLINE 0) (List.replicate MAXLINE 0) (List.replicate MAXLINE 0)

/-- A line comes back in two pieces, the second one after the client's end of input. -/
theorem echo_intact_line :
    ∃ s, Reachable (Guarded Terminated Step) (.zeroed [104, 105, 10]) s ∧
      s.client.pc = .normalExit ∧ EchoIntact [104, 105, 10] normalExitLine s := by
  have run : ∃ s, Steps (Guarded Terminated Step) (.zeroed [104, 105, 10])
      [.select false true, .readStdin 3 [], .writeSocket 2, .serverRead 2, .writeSocket 1,
        .serverWrite 2, .select true true, .readSocket 2, .writeStdout 2, .readStdin 0 [],
        .serverRead 1, .serverWrite 1, .serverRead 0, .select true false, .readSocket 1,
        .writeStdout 1, .select true false, .readSocket 0] s ∧
      s.client.pc = .normalExit :=
    ⟨_, Steps.of_foldlM_guarded rfl, rfl⟩
  obtain ⟨s, steps, exit⟩ := run
  exact ⟨s, ⟨_, steps⟩, exit, echo_intact ⟨_, steps⟩⟩

/-- The log line stands behind the echo, also where all strings are terminated. Of a chunk with a
NUL byte in it, the client sends what lies before the NUL. -/
theorem echo_cut :
    (∃ s, Reachable (Guarded Terminated Step) (.zeroed [97]) s ∧ s.client.pc = .normalExit ∧
      s.client.stdout = [97] ++ normalExitLine ∧ ¬ EchoIntact [97] [] s) ∧
    ∃ s, Reachable Step (.zeroed [97, 0, 98, 10]) s ∧ s.client.pc = .normalExit ∧
      s.client.stdout = [97] ++ normalExitLine ∧ ¬ EchoIntact [97, 0, 98, 10] [] s := by
  have longer : normalExitLine.length = 17 := rfl
  constructor
  · have run : ∃ s, Steps (Guarded Terminated Step) (.zeroed [97])
        [.select false true, .readStdin 1 [], .writeSocket 1, .serverRead 1, .serverWrite 1,
          .select true true, .readSocket 1, .writeStdout 1, .readStdin 0 [], .serverRead 0,
          .select true false, .readSocket 0] s ∧
        s.client.pc = .normalExit ∧ s.client.stdout = [97] ++ normalExitLine :=
      ⟨_, Steps.of_foldlM_guarded rfl, rfl, rfl⟩
    obtain ⟨s, steps, exit, out⟩ := run
    refine ⟨s, ⟨_, steps⟩, exit, out, fun intact => ?_⟩
    have echoed := congrArg List.length (intact.echoed exit)
    rw [out, List.length_append, longer] at echoed
    cases echoed
  · have run : ∃ s, Steps Step (.zeroed [97, 0, 98, 10])
        [.select false true, .readStdin 4 [], .writeSocket 1, .serverRead 1, .serverWrite 1,
          .select true true, .readSocket 1, .writeStdout 1, .readStdin 0 [], .serverRead 0,
          .select true false, .readSocket 0] s ∧
        s.client.pc = .normalExit ∧ s.client.stdout = [97] ++ normalExitLine :=
      ⟨_, Steps.of_foldlM_option rfl, rfl, rfl⟩
    obtain ⟨s, steps, exit, out⟩ := run
    refine ⟨s, ⟨_, steps⟩, exit, out, fun intact => ?_⟩
    have echoed := congrArg List.length (intact.echoed exit)
    rw [out, List.length_append, longer] at echoed
    cases echoed

end UnixProgramming.EchoTcp
