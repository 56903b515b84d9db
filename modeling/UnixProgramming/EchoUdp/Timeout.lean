import UnixProgramming.EchoUdp.Pairing
import UnixProgramming.Library.Numbered
import UnixProgramming.Library.Progress
import UnixProgramming.Library.ReadText

/-!
# `dg_client_v1`, `dg_client_v2` and `dg_cli_v3`: waiting for a reply with a timeout

The three clients wait for each reply for five seconds at most: with `alarm`, with `select`, and
with `SO_RCVTIMEO`. The network keeps the order of the datagrams and may lose some, and a reply
may come behind its timeout. The times are left to the environment. In the runs no call fails
but for a timeout: `State.fail` is what the clients do where `Recvfrom` does. Of what the clients
print only the replies are here, not the lines for a timeout.
-/

namespace UnixProgramming.EchoUdp.Timeout

open CMemory Transition

inductive Variant
  | clientV1
  | clientV2
  | cliV3
  deriving DecidableEq

/-- A line or its echo, with the number of the line. -/
structure Datagram where
  number : Nat
  data : Block
  deriving DecidableEq

/-- The instruction that comes next. A client is `receiving` inside of `recvfrom`. -/
inductive Pc
  | fgets
  | alarm
  | select
  | recvfrom
  | receiving
  | cancel (d : Datagram)
  | done
  deriving DecidableEq

/-- A reply that was printed: the line that it was printed for, and the timeouts before. -/
structure Print where
  reply : Datagram
  line : Nat
  timeouts : Nat
  text : Block

/-- `armed` says that an alarm is set. The datagrams in `pending` are on their way to the server
or back, those in `queue` are in the socket. The last fields record the history: the lines that
were sent, the timeouts, what was printed and lost, and if the alarm went off in front of
`recvfrom`. -/
structure State where
  input : List Line
  pc : Pc
  recvline : Block
  armed : Bool
  pending : List Datagram
  queue : List Datagram
  sent : Nat
  timeouts : Nat
  printed : List Print
  lost : List Nat
  early : Bool

inductive Action
  | run
  | receive
  | timeout
  | echo
  | lose (i : Nat)
  deriving DecidableEq

namespace State

/-- `recvline` is not initialised. -/
def init (lines : List Line) (recvline : Vector UInt8 512) : State where
  input := lines
  pc := .fgets
  recvline := recvline.toList
  armed := false
  pending := []
  queue := []
  sent := 0
  timeouts := 0
  printed := []
  lost := []
  early := false

/-- From `Fgets` to behind `Sendto`. -/
def fgets (v : Variant) (s : State) : State :=
  match s.input with
  | [] => { s with pc := .done }
  | line :: input =>
      { s with
        input
        pending := s.pending ++ [⟨s.sent, line.datagram⟩]
        sent := s.sent + 1
        pc := match v with
          | .clientV1 => .alarm
          | .clientV2 => .select
          | .cliV3 => .recvfrom }

/-- `recvline[n] = '\0'; Fputs(recvline, stdout);` -/
def print (s : State) (d : Datagram) : Except Fault State := do
  let recvline ← readText s.recvline (d.data.take MAXLINE)
  let text ← readString recvline
  let entry : Print := ⟨d, s.sent - 1, s.timeouts, text⟩
  return { s with recvline, printed := s.printed ++ [entry], pc := .fgets }

def run (v : Variant) (s : State) : Except Stop State :=
  match s.pc with
  | .fgets => .ok (s.fgets v)
  | .alarm => .ok { s with armed := true, early := false, pc := .recvfrom }
  | .select => if s.queue ≠ [] then .ok { s with pc := .recvfrom } else .error .blocked
  | .recvfrom => .ok { s with pc := .receiving }
  | .cancel d => ({ s with armed := false }.print d).mapError .fault
  | .receiving | .done => .error .blocked

/-- `recvfrom` returns a datagram. -/
def receive (v : Variant) (s : State) : Except Stop State :=
  match s.pc, s.queue with
  | .receiving, d :: queue =>
      match v with
      | .clientV1 => .ok { s with queue, pc := .cancel d }
      | .clientV2 | .cliV3 => ({ s with queue }.print d).mapError .fault
  | _, _ => .error .blocked

/-- `recvfrom` fails, and it is not the timeout. `dg_client_v1` goes on, with its alarm set. The
others print that, if at all, and go on to `recvline[n]`, with -1 in `n`. -/
def fail (v : Variant) (s : State) : Except Stop State :=
  match s.pc, v with
  | .receiving, .clientV1 => .ok { s with pc := .fgets }
  | .receiving, .clientV2 | .receiving, .cliV3 =>
      -- the index as a `size_t`
      .error (.fault (.outOfBounds 0xffffffffffffffff))
  | _, _ => .error .blocked

/-- Five seconds are over. `SIGALRM` interrupts a `recvfrom` only if it is waiting. -/
def timeout (v : Variant) (s : State) : Except Stop State :=
  match v with
  | .clientV1 =>
      if s.armed = true then
        if s.pc = .receiving then
          .ok { s with armed := false, timeouts := s.timeouts + 1, pc := .fgets }
        else .ok { s with armed := false, early := s.early || s.pc = .recvfrom }
      else .error .blocked
  | .clientV2 =>
      if s.pc = .select ∧ s.queue = [] then
        .ok { s with timeouts := s.timeouts + 1, pc := .fgets }
      else .error .blocked
  | .cliV3 =>
      if s.pc = .receiving ∧ s.queue = [] then
        .ok { s with timeouts := s.timeouts + 1, pc := .fgets }
      else .error .blocked

/-- `dg_echo` of the server without its log, and the way back. -/
def echo (s : State) : Except Stop State :=
  match s.pending with
  | d :: pending =>
      .ok { s with pending, queue := s.queue ++ [{ d with data := d.data.take MAXLINE }] }
  | [] => .error .blocked

def lose (s : State) (i : Nat) : Except Stop State :=
  match s.pending[i]? with
  | some d => .ok { s with pending := s.pending.eraseIdx i, lost := s.lost ++ [d.number] }
  | none => .error .blocked

def step (v : Variant) (s : State) : Action → Except Stop State
  | .run => s.run v
  | .receive => s.receive v
  | .timeout => s.timeout v
  | .echo => s.echo
  | .lose i => s.lose i

end State

def Step (v : Variant) (s : State) (act : Action) (s' : State) : Prop := s.step v act = .ok s'

variable {v : Variant} {s t s' : State} {act : Action} {as : List Action} {lines : List Line}
variable {recvline : Vector UInt8 512} {d : Datagram}

/-! ## One step -/

/-- A datagram that holds the line with its number. -/
def Holds (lines : List Line) (d : Datagram) : Prop :=
  (lines[d.number]?).map Line.datagram = some d.data

theorem Holds.plain (holds : Holds lines d) : 0 ∉ d.data ∧ d.data.length < MAXLINE := by
  obtain ⟨line, -, same⟩ := Option.map_eq_some_iff.mp holds
  rw [← same]
  exact line.datagram_plain

/-- A datagram that holds a line is not cut off. -/
theorem Holds.take (holds : Holds lines d) : d.data.take MAXLINE = d.data :=
  List.take_of_length_le holds.plain.2.le

theorem print_eq (room : s.recvline.length = MAXLINE) (holds : Holds lines d) :
    ∃ recvline, recvline.length = MAXLINE ∧
      s.print d = .ok { s with
        recvline
        printed := s.printed ++ [⟨d, s.sent - 1, s.timeouts, d.data⟩]
        pc := .fgets } := by
  obtain ⟨plain, short⟩ := holds.plain
  obtain ⟨recvline, read, size, text⟩ := readText_plain (room ▸ short) plain
  refine ⟨recvline, size.trans room, ?_⟩
  rw [State.print, holds.take, read]
  dsimp only [bind, Except.bind]
  rw [text]
  rfl

/-- The reply that has been received but not printed. -/
def Pc.held : Pc → List Datagram
  | .cancel d => [d]
  | .fgets | .alarm | .select | .recvfrom | .receiving | .done => []

/-- The replies that may still be printed, oldest first. -/
def State.outstanding (s : State) : List Datagram := s.pc.held ++ s.queue ++ s.pending

/-- What a step can do, all datagrams holding their lines. -/
inductive Effect (v : Variant) (s : State) : State → Prop
  | finish (at_ : s.pc = .fgets) (input : s.input = []) : Effect v s { s with pc := .done }
  | send {line : Line} {input : List Line} {pc : Pc} (at_ : s.pc = .fgets)
      (input_ : s.input = line :: input)
      (next : v = .clientV1 ∧ pc = .alarm ∨ v = .clientV2 ∧ pc = .select ∨
        v = .cliV3 ∧ pc = .recvfrom) :
      Effect v s { s with
        input
        pending := s.pending ++ [⟨s.sent, line.datagram⟩]
        sent := s.sent + 1
        pc }
  | alarm (at_ : s.pc = .alarm) :
      Effect v s { s with armed := true, early := false, pc := .recvfrom }
  | select (at_ : s.pc = .select) (ready : s.queue ≠ []) : Effect v s { s with pc := .recvfrom }
  | recvfrom (at_ : s.pc = .recvfrom) : Effect v s { s with pc := .receiving }
  | take {d : Datagram} {queue : List Datagram} (at_ : s.pc = .receiving)
      (waiting : s.queue = d :: queue) (variant : v = .clientV1) :
      Effect v s { s with queue, pc := .cancel d }
  | cancel {d : Datagram} {recvline : Block} (at_ : s.pc = .cancel d)
      (room : recvline.length = MAXLINE) :
      Effect v s { s with
        armed := false
        recvline
        printed := s.printed ++ [⟨d, s.sent - 1, s.timeouts, d.data⟩]
        pc := .fgets }
  | print {d : Datagram} {queue : List Datagram} {recvline : Block} (at_ : s.pc = .receiving)
      (waiting : s.queue = d :: queue) (variant : v ≠ .clientV1)
      (room : recvline.length = MAXLINE) :
      Effect v s { s with
        queue
        recvline
        printed := s.printed ++ [⟨d, s.sent - 1, s.timeouts, d.data⟩]
        pc := .fgets }
  | interrupt (variant : v = .clientV1) (armed : s.armed = true) (at_ : s.pc = .receiving) :
      Effect v s { s with armed := false, timeouts := s.timeouts + 1, pc := .fgets }
  | timeout (empty : s.queue = [])
      (waits : v = .clientV2 ∧ s.pc = .select ∨ v = .cliV3 ∧ s.pc = .receiving) :
      Effect v s { s with timeouts := s.timeouts + 1, pc := .fgets }
  | early (variant : v = .clientV1) (armed : s.armed = true) (at_ : s.pc ≠ .receiving) :
      Effect v s { s with armed := false, early := s.early || s.pc = .recvfrom }
  | echo {d : Datagram} {pending : List Datagram} (sent : s.pending = d :: pending) :
      Effect v s { s with pending, queue := s.queue ++ [d] }
  | lose {i : Nat} {d : Datagram} (sent : s.pending[i]? = some d) :
      Effect v s { s with pending := s.pending.eraseIdx i, lost := s.lost ++ [d.number] }

/-- The array is as long as it is declared, and every datagram holds its line. -/
structure Data (lines : List Line) (s : State) : Prop where
  room : s.recvline.length = MAXLINE
  holds : ∀ d ∈ s.outstanding, Holds lines d

namespace Data

variable {queue : List Datagram}

theorem run (data : Data lines s) (h : s.run v = .ok s') : Effect v s s' := by
  unfold State.run at h
  split at h
  case h_1 at_ =>
    rw [← Except.ok.inj h]
    unfold State.fgets
    split
    case h_1 input => exact .finish at_ input
    case h_2 line input next =>
      refine .send at_ next ?_
      cases v <;> simp
  case h_2 at_ => cases h; exact .alarm at_
  case h_3 at_ =>
    split at h
    · cases h; exact .select at_ ‹_›
    · cases h
  case h_4 at_ => cases h; exact .recvfrom at_
  case h_5 d at_ =>
    have holds : Holds lines d := data.holds d (by simp [State.outstanding, at_, Pc.held])
    obtain ⟨recvline, room, print⟩ := @print_eq { s with armed := false } lines d data.room holds
    rw [print] at h
    cases h
    exact .cancel at_ room
  case h_6 => cases h
  case h_7 => cases h

theorem receive (data : Data lines s) (h : s.receive v = .ok s') : Effect v s s' := by
  unfold State.receive at h
  split at h
  case h_1 d queue at_ waiting =>
    have holds : Holds lines d := data.holds d (by simp [State.outstanding, waiting])
    obtain ⟨recvline, room, print⟩ := @print_eq { s with queue } lines d data.room holds
    cases v with
    | clientV1 => cases h; exact .take at_ waiting rfl
    | clientV2 | cliV3 =>
        simp only [print] at h
        cases h
        exact .print at_ waiting nofun room
  case h_2 => cases h

theorem timeout (h : s.timeout v = .ok s') : Effect v s s' := by
  cases v with
  | clientV1 =>
      simp only [State.timeout] at h
      split at h
      · split at h
        · cases h; exact .interrupt rfl ‹_› ‹_›
        · cases h; exact .early rfl ‹_› ‹_›
      · cases h
  | clientV2 =>
      simp only [State.timeout] at h
      split at h
      · rename_i waits
        cases h
        exact .timeout waits.2 (.inl ⟨rfl, waits.1⟩)
      · cases h
  | cliV3 =>
      simp only [State.timeout] at h
      split at h
      · rename_i waits
        cases h
        exact .timeout waits.2 (.inr ⟨rfl, waits.1⟩)
      · cases h

theorem effect (data : Data lines s) (h : Step v s act s') : Effect v s s' := by
  cases act with
  | run => exact data.run h
  | receive => exact data.receive h
  | timeout => exact timeout h
  | echo =>
      simp only [Step, State.step, State.echo] at h
      split at h
      · rename_i d pending sent
        have holds : Holds lines d := data.holds d (by simp [State.outstanding, sent])
        rw [holds.take] at h
        cases h
        exact .echo sent
      · cases h
  | lose i =>
      simp only [Step, State.step, State.lose] at h
      split at h
      · cases h
        exact .lose ‹_›
      · cases h

/-- The client writes and reads inside of its array. -/
theorem ne_fault (data : Data lines s) (act : Action) (fault : Fault) :
    s.step v act ≠ .error (.fault fault) := by
  intro h
  cases act with
  | run =>
      simp only [State.step, State.run] at h
      split at h
      case h_5 d at_ =>
        have holds : Holds lines d := data.holds d (by simp [State.outstanding, at_, Pc.held])
        obtain ⟨recvline, -, print⟩ := @print_eq { s with armed := false } lines d data.room holds
        rw [print] at h
        cases h
      case h_3 => split at h <;> cases h
      all_goals cases h
  | receive =>
      simp only [State.step, State.receive] at h
      split at h
      case h_1 d queue at_ waiting =>
        have holds : Holds lines d := data.holds d (by simp [State.outstanding, waiting])
        obtain ⟨recvline, -, print⟩ := @print_eq { s with queue } lines d data.room holds
        cases v <;> simp only [print] at h <;> cases h
      case h_2 => cases h
  | timeout =>
      cases v <;> simp only [State.step, State.timeout] at h
      case clientV1 =>
        split at h
        · split at h <;> cases h
        · cases h
      all_goals split at h <;> cases h
  | echo =>
      simp only [State.step, State.echo] at h
      split at h <;> cases h
  | lose i =>
      simp only [State.step, State.lose] at h
      split at h <;> cases h

end Data

/-! ## Replies and timeouts -/

/-- A line has been sent, and its reply is waited for. -/
def Pc.waits : Pc → Bool
  | .alarm | .select | .recvfrom | .receiving | .cancel _ => true
  | .fgets | .done => false

/-- What has become of the lines: every one is printed, lost or still outstanding, and for every
one a reply was printed or the time was over, but for the last. -/
structure Record (lines : List Line) (s : State) : Prop extends Data lines s where
  input : s.input = lines.drop s.sent
  inside : s.sent ≤ lines.length
  stream : Numbered.Stream (s.printed.map fun p => p.reply.number)
    (s.outstanding.map Datagram.number) s.lost s.sent
  texts : ∀ p ∈ s.printed, (lines[p.reply.number]?).map Line.datagram = some p.text
  place : ∀ (i : Nat) (p : Print), s.printed[i]? = some p →
    p.line = i + p.timeouts ∧ p.reply.number ≤ p.line
  count : s.sent = s.printed.length + s.timeouts + s.pc.waits.toNat

namespace Record

/-- Nothing is sent, received or lost. -/
theorem stay (record : Record lines s) (room : t.recvline = s.recvline)
    (outstanding : t.outstanding = s.outstanding) (input : t.input = s.input)
    (sent : t.sent = s.sent) (printed : t.printed = s.printed) (lost : t.lost = s.lost)
    (count : t.timeouts + t.pc.waits.toNat = s.timeouts + s.pc.waits.toNat) :
    Record lines t := by
  obtain ⟨⟨room', holds⟩, input', inside, stream, texts, place, count'⟩ := record
  constructor
  case toData => exact ⟨room ▸ room', outstanding ▸ holds⟩
  case input => rw [input, sent, input']
  case inside => exact sent ▸ inside
  case stream => rwa [printed, outstanding, lost, sent]
  case texts => rwa [printed]
  case place => rwa [printed]
  case count => rw [printed, sent]; omega

/-- A reply is printed. -/
theorem print {rest : List Datagram} {recvline : Block} (record : Record lines s)
    (room : recvline.length = MAXLINE) (waits : s.pc.waits = true)
    (first : s.outstanding = d :: rest) (outstanding : t.outstanding = rest)
    (recvline_ : t.recvline = recvline) (input : t.input = s.input) (sent : t.sent = s.sent)
    (printed : t.printed = s.printed ++ [⟨d, s.sent - 1, s.timeouts, d.data⟩])
    (lost : t.lost = s.lost) (timeouts : t.timeouts = s.timeouts) (at_ : t.pc = .fgets) :
    Record lines t := by
  obtain ⟨⟨room', holds⟩, input', inside, stream, texts, place, count⟩ := record
  rw [waits, Bool.toNat_true] at count
  rw [first] at holds stream
  constructor
  case toData =>
    exact ⟨recvline_ ▸ room, outstanding ▸ fun d mem => holds d (List.mem_cons_of_mem _ mem)⟩
  case input => rw [input, sent, input']
  case inside => exact sent ▸ inside
  case stream =>
    rw [printed, outstanding, lost, sent, List.map_append]
    exact stream.arrive
  case texts =>
    intro p mem
    rw [printed] at mem
    obtain old | new := List.mem_append.mp mem
    · exact texts p old
    · rw [List.mem_singleton.mp new]
      exact holds d List.mem_cons_self
  case place =>
    intro i p at_
    rw [printed] at at_
    obtain old | new := lt_or_ge i s.printed.length
    · rw [List.getElem?_append_left old] at at_
      exact place i p at_
    · rw [List.getElem?_append_right new, List.getElem?_singleton] at at_
      obtain ⟨last, same⟩ := Option.ite_none_right_eq_some.mp at_
      have before : d.number < s.sent := stream.lt (by simp)
      rw [← Option.some.inj same]
      show s.sent - 1 = i + s.timeouts ∧ d.number ≤ s.sent - 1
      omega
  case count =>
    rw [printed, sent, timeouts, at_, List.length_append, List.length_singleton]
    simp only [Pc.waits, Bool.toNat_false]
    omega

theorem send {line : Line} {input : List Line} {pc : Pc} (record : Record lines s)
    (at_ : s.pc = .fgets) (next : s.input = line :: input) (held : pc.held = [])
    (waits : pc.waits = true) :
    Record lines { s with
      input
      pending := s.pending ++ [⟨s.sent, line.datagram⟩]
      sent := s.sent + 1
      pc } := by
  obtain ⟨⟨room, holds⟩, input_, inside, stream, texts, place, count⟩ := record
  have drop : lines.drop s.sent = line :: input := input_.symm.trans next
  have outstanding : State.outstanding { s with
      input
      pending := s.pending ++ [⟨s.sent, line.datagram⟩]
      sent := s.sent + 1
      pc } = s.outstanding ++ [⟨s.sent, line.datagram⟩] := by
    have none : s.pc.held = [] := by rw [at_]; rfl
    simp [State.outstanding, held, none]
  constructor
  case toData =>
    refine ⟨room, fun d mem => ?_⟩
    rw [outstanding] at mem
    obtain old | new := List.mem_append.mp mem
    · exact holds d old
    · rw [List.mem_singleton.mp new, Holds]
      rw [← List.head?_drop, drop]
      rfl
  case input =>
    rw [← List.drop_drop, drop]
    rfl
  case inside =>
    have more : 0 < (lines.drop s.sent).length := by rw [drop]; exact Nat.zero_lt_succ _
    rw [List.length_drop] at more
    exact Nat.lt_of_sub_pos more
  case stream =>
    rw [outstanding, List.map_append]
    exact stream.send
  case texts => exact texts
  case place => exact place
  case count =>
    have before : s.pc.waits = false := by rw [at_]; rfl
    rw [before, Bool.toNat_false] at count
    simp only [waits, Bool.toNat_true]
    omega

theorem lose {i : Nat} (record : Record lines s) (at_ : s.pending[i]? = some d) :
    Record lines { s with
      pending := s.pending.eraseIdx i, lost := s.lost ++ [d.number] } := by
  obtain ⟨⟨room, holds⟩, input, sent, stream, texts, place, count⟩ := record
  obtain ⟨inside, same⟩ := List.getElem?_eq_some_iff.mp at_
  have split : s.pending = s.pending.take i ++ d :: s.pending.drop (i + 1) := by
    rw [← same, ← List.drop_eq_getElem_cons inside, List.take_append_drop]
  have before : s.outstanding =
      s.pc.held ++ s.queue ++ s.pending.take i ++ d :: s.pending.drop (i + 1) := by
    rw [State.outstanding, List.append_assoc (s.pc.held ++ s.queue), ← split]
  have after : State.outstanding { s with
      pending := s.pending.eraseIdx i, lost := s.lost ++ [d.number] } =
      s.pc.held ++ s.queue ++ s.pending.take i ++ s.pending.drop (i + 1) := by
    rw [State.outstanding, List.eraseIdx_eq_take_drop_succ, ← List.append_assoc]
  constructor
  case toData =>
    refine ⟨room, fun e mem => holds e ?_⟩
    rw [after] at mem
    rw [before]
    simp only [List.mem_append, List.mem_cons] at mem ⊢
    tauto
  case input => exact input
  case inside => exact sent
  case stream =>
    rw [before, List.map_append, List.map_cons] at stream
    rw [after, List.map_append]
    exact stream.lose
  case texts => exact texts
  case place => exact place
  case count => exact count

theorem effect (record : Record lines s) (h : Effect v s t) : Record lines t := by
  cases h with
  | finish at_ =>
      exact record.stay rfl (by simp [State.outstanding, at_, Pc.held]) rfl rfl rfl rfl
        (by rw [at_]; rfl)
  | send at_ next variant =>
      refine record.send at_ next ?_ ?_ <;> obtain ⟨-, rfl⟩ | ⟨-, rfl⟩ | ⟨-, rfl⟩ := variant <;> rfl
  | alarm at_ | recvfrom at_ =>
      exact record.stay rfl (by simp [State.outstanding, at_, Pc.held]) rfl rfl rfl rfl
        (by rw [at_]; rfl)
  | select at_ ready =>
      exact record.stay rfl (by simp [State.outstanding, at_, Pc.held]) rfl rfl rfl rfl
        (by rw [at_]; rfl)
  | take at_ waiting variant =>
      exact record.stay rfl (by simp [State.outstanding, at_, waiting, Pc.held]) rfl rfl rfl rfl
        (by rw [at_]; rfl)
  | cancel at_ room =>
      exact record.print room (by rw [at_]; rfl) (by simp [State.outstanding, at_, Pc.held])
        rfl rfl rfl rfl rfl rfl rfl rfl
  | print at_ waiting variant room =>
      exact record.print room (by rw [at_]; rfl)
        (by simp [State.outstanding, at_, waiting, Pc.held]) rfl rfl rfl rfl rfl rfl rfl rfl
  | interrupt variant armed at_ =>
      exact record.stay rfl (by simp [State.outstanding, at_, Pc.held]) rfl rfl rfl rfl
        (by rw [at_]; rfl)
  | timeout empty waits =>
      obtain ⟨-, at_⟩ | ⟨-, at_⟩ := waits <;>
        exact record.stay rfl (by simp [State.outstanding, at_, Pc.held]) rfl rfl rfl rfl
          (by rw [at_]; rfl)
  | early => exact record.stay rfl rfl rfl rfl rfl rfl rfl
  | echo sent => exact record.stay rfl (by simp [State.outstanding, sent]) rfl rfl rfl rfl rfl
  | lose sent => exact record.lose sent

end Record

/-! ## The timers -/

/-- Where the alarm of `dg_client_v1` may be set. -/
def Pc.timed : Pc → Bool
  | .recvfrom | .receiving | .cancel _ => true
  | .fgets | .alarm | .select | .done => false

/-- `dg_client_v1` has an alarm while it waits, unless it went off too early. `dg_client_v2` has
something to read when it calls `recvfrom`. -/
structure Timer (v : Variant) (s : State) : Prop where
  alarm : s.pc = .alarm → v = .clientV1
  select : s.pc = .select → v = .clientV2
  cancel : ∀ d, s.pc = .cancel d → v = .clientV1
  armed : s.armed = true → v = .clientV1 ∧ s.pc.timed = true
  set : v = .clientV1 → s.pc = .recvfrom ∨ s.pc = .receiving → s.armed = true ∨ s.early = true
  off : s.early = true → s.armed = false
  ready : v = .clientV2 → s.pc = .recvfrom ∨ s.pc = .receiving → s.queue ≠ []
  finished : s.pc = .done → s.input = []

namespace Timer

theorem unarmed (timer : Timer v s) (h : v ≠ .clientV1 ∨ s.pc.timed = false) :
    s.armed = false := by
  by_contra armed
  obtain ⟨variant, timed⟩ := timer.armed (by simpa using armed)
  obtain other | idle := h
  · exact other variant
  · exact Bool.noConfusion (idle.symm.trans timed)

/-- No timer is left in front of `Fgets`. -/
theorem fgets (at_ : t.pc = .fgets) (armed : t.armed = false) : Timer v t where
  alarm h := by rw [at_] at h; cases h
  select h := by rw [at_] at h; cases h
  cancel d h := by rw [at_] at h; cases h
  armed h := by rw [armed] at h; cases h
  set _ h := by rw [at_] at h; obtain h | h := h <;> cases h
  off _ := armed
  ready _ h := by rw [at_] at h; obtain h | h := h <;> cases h
  finished h := by rw [at_] at h; cases h

theorem effect (timer : Timer v s) (h : Effect v s t) : Timer v t := by
  cases h with
  | finish at_ input =>
      have armed := timer.unarmed (.inr (by rw [at_]; rfl))
      constructor <;> simp [input, armed]
  | send at_ next variant =>
      have armed := timer.unarmed (.inr (by rw [at_]; rfl))
      obtain ⟨rfl, rfl⟩ | ⟨rfl, rfl⟩ | ⟨rfl, rfl⟩ := variant <;> constructor <;> simp [armed]
  | alarm at_ =>
      have variant := timer.alarm at_
      subst variant
      constructor <;> simp [Pc.timed]
  | select at_ ready =>
      have variant := timer.select at_
      have armed := timer.unarmed (.inr (by rw [at_]; rfl))
      subst variant
      constructor <;> simp [ready, armed]
  | recvfrom at_ =>
      constructor <;> simp [Pc.timed]
      · exact fun armed => (timer.armed armed).1
      · exact fun variant => timer.set variant (.inl at_)
      · exact timer.off
      · exact fun variant => timer.ready variant (.inl at_)
  | take at_ waiting variant =>
      constructor <;> simp [variant, Pc.timed]
      exact timer.off
  | cancel => exact fgets rfl rfl
  | print at_ waiting variant => exact fgets rfl (timer.unarmed (.inl variant))
  | interrupt => exact fgets rfl rfl
  | timeout empty waits =>
      refine fgets rfl (timer.unarmed (.inl ?_))
      obtain ⟨rfl, -⟩ | ⟨rfl, -⟩ := waits <;> decide
  | early variant armed at_ =>
      subst variant
      refine { timer with armed := nofun, set := ?_, off := fun _ => rfl }
      rintro - (before | waiting)
      · exact .inr (by simp [show s.pc = .recvfrom from before])
      · exact absurd waiting at_
  | echo => exact { timer with ready := fun _ _ => by simp }
  | lose => exact { timer with }

end Timer

/-! ## Whole runs -/

structure Inv (v : Variant) (lines : List Line) (s : State) : Prop extends
  Record lines s, Timer v s

namespace Inv

theorem init (v : Variant) (lines : List Line) (recvline : Vector UInt8 512) :
    Inv v lines (.init lines recvline) := by
  constructor
  case toRecord =>
    constructor
    case toData => exact ⟨recvline.length_toList, nofun⟩
    case input => rfl
    case inside => exact Nat.zero_le _
    case stream => exact .empty
    case texts => nofun
    case place => nofun
    case count => rfl
  case toTimer => exact Timer.fgets rfl rfl

theorem effect (inv : Inv v lines s) (h : Step v s act t) : Effect v s t := inv.toData.effect h

theorem step (inv : Inv v lines s) (h : Step v s act t) : Inv v lines t :=
  ⟨inv.toRecord.effect (inv.effect h), inv.toTimer.effect (inv.effect h)⟩

theorem of_steps (run : Steps (Step v) (.init lines recvline) as s) : Inv v lines s :=
  run.invariant (fun _ _ _ inv h => inv.step h) (init v lines recvline)

end Inv

def Pc.rank : Pc → Nat
  | .alarm | .select => 7
  | .recvfrom => 5
  | .receiving => 4
  | .cancel _ => 3
  | .fgets => 1
  | .done => 0

/-- Bounds the steps that are still to come. -/
def State.rank (s : State) : Nat :=
  8 * s.input.length + s.pc.rank + s.armed.toNat + s.pending.length

theorem rank_effect (h : Effect v s t) : t.rank < s.rank := by
  cases h with
  | finish at_ input => simp [State.rank, at_, Pc.rank]
  | send at_ next variant =>
      obtain ⟨-, rfl⟩ | ⟨-, rfl⟩ | ⟨-, rfl⟩ := variant <;>
        simp [State.rank, at_, next, Pc.rank] <;> omega
  | alarm at_ => simp [State.rank, at_, Pc.rank]; omega
  | select at_ | recvfrom at_ | take at_ => simp [State.rank, at_, Pc.rank]
  | cancel at_ => simp [State.rank, at_, Pc.rank]; omega
  | print at_ => simp [State.rank, at_, Pc.rank]
  | interrupt variant armed at_ => simp [State.rank, at_, armed, Pc.rank]
  | timeout empty waits =>
      obtain ⟨-, at_⟩ | ⟨-, at_⟩ := waits <;> simp [State.rank, at_, Pc.rank]
  | early variant armed at_ => simp [State.rank, armed]
  | echo sent => simp [State.rank, sent]
  | lose sent =>
      obtain ⟨inside, -⟩ := List.getElem?_eq_some_iff.mp sent
      simp only [State.rank, List.length_eraseIdx_of_lt inside]
      omega

theorem ranked (v : Variant) (lines : List Line) :
    Ranked (Step v) (Inv v lines) State.rank where
  keeps _ _ _ inv h := inv.step h
  falls _ _ _ inv h := rank_effect (inv.effect h)

theorem Data.receive_eq {queue : List Datagram} (data : Data lines s) (at_ : s.pc = .receiving)
    (waiting : s.queue = d :: queue) (variant : v ≠ .clientV1) :
    ∃ recvline, s.receive v = .ok { s with
      queue
      recvline
      printed := s.printed ++ [⟨d, s.sent - 1, s.timeouts, d.data⟩]
      pc := .fgets } := by
  have holds : Holds lines d := data.holds d (by simp [State.outstanding, waiting])
  obtain ⟨recvline, -, print⟩ := @print_eq { s with queue } lines d data.room holds
  have receive : s.receive v = ({ s with queue }.print d).mapError .fault := by
    cases v with
    | clientV1 => exact absurd rfl variant
    | clientV2 | cliV3 => simp only [State.receive, at_, waiting]
  exact ⟨recvline, receive.trans (congrArg _ print)⟩

/-- A datagram that waits in the socket is received. -/
theorem Data.exists_receive (data : Data lines s) (at_ : s.pc = .receiving)
    (waiting : s.queue ≠ []) : ∃ t, Step v s .receive t := by
  obtain ⟨d, queue, waiting⟩ := List.exists_cons_of_ne_nil waiting
  by_cases variant : v = .clientV1
  · subst variant
    have receive : s.receive .clientV1 = .ok { s with queue, pc := .cancel d } := by
      simp only [State.receive, at_, waiting]
    exact ⟨_, receive⟩
  · obtain ⟨recvline, receive⟩ := data.receive_eq at_ waiting variant
    exact ⟨_, receive⟩

/-- `dg_client_v1` waits for ever: the alarm went off before `recvfrom` did wait. -/
def State.hung (v : Variant) (s : State) : Prop :=
  v = .clientV1 ∧ s.pc = .receiving ∧ s.early = true ∧ s.queue = []

/-- What can be done while the client is neither done nor hung. -/
theorem Inv.exists_step (inv : Inv v lines s) (going : s.pc ≠ .done) (free : ¬ s.hung v) :
    ∃ act t, Step v s act t := by
  cases at_ : s.pc with
  | done => exact absurd at_ going
  | fgets | alarm | recvfrom => exact ⟨.run, by simp [Step, State.step, State.run, at_]⟩
  | select =>
      have variant := inv.select at_
      subst variant
      by_cases empty : s.queue = []
      · exact ⟨.timeout, by simp [Step, State.step, State.timeout, at_, empty]⟩
      · exact ⟨.run, by simp [Step, State.step, State.run, at_, empty]⟩
  | cancel d =>
      have holds : Holds lines d := inv.holds d (by simp [State.outstanding, at_, Pc.held])
      obtain ⟨recvline, -, print⟩ := @print_eq { s with armed := false } lines d inv.room holds
      have run : s.run v = ({ s with armed := false }.print d).mapError .fault := by
        simp only [State.run, at_]
      exact ⟨.run, _, run.trans (congrArg _ print)⟩
  | receiving =>
      by_cases empty : s.queue = []
      case neg => exact ⟨.receive, inv.toData.exists_receive at_ empty⟩
      refine ⟨.timeout, ?_⟩
      cases v with
      | clientV1 =>
          obtain armed | early := inv.set rfl (.inr at_)
          · simp [Step, State.step, State.timeout, at_, armed]
          · exact absurd ⟨rfl, at_, early, empty⟩ free
      | clientV2 => exact absurd empty (inv.ready rfl (.inr at_))
      | cliV3 => simp [Step, State.step, State.timeout, at_, empty]

theorem Inv.stuck_iff (inv : Inv v lines s) :
    Stuck (Step v) s ↔ s.pending = [] ∧ (s.pc = .done ∨ s.hung v) := by
  constructor
  · intro stuck
    constructor
    · by_contra some
      obtain ⟨d, pending, sent⟩ := List.exists_cons_of_ne_nil some
      exact stuck .echo _ (by rw [Step, State.step, State.echo, sent])
    · by_contra going
      rw [not_or] at going
      obtain ⟨act, t, step⟩ := inv.exists_step going.1 going.2
      exact stuck act t step
  · rintro ⟨none, rest⟩ act t step
    have armed : s.armed = false := by
      obtain at_ | ⟨-, -, early, -⟩ := rest
      · exact inv.toTimer.unarmed (.inr (by rw [at_]; rfl))
      · exact inv.off early
    cases inv.effect step with
    | finish at_ | send at_ | alarm at_ | select at_ | recvfrom at_ | cancel at_ =>
        obtain done | ⟨-, waits, -⟩ := rest
        · rw [at_] at done; cases done
        · rw [at_] at waits; cases waits
    | take at_ waiting | print at_ waiting =>
        obtain done | ⟨-, -, -, empty⟩ := rest
        · rw [at_] at done; cases done
        · rw [waiting] at empty; cases empty
    | interrupt _ set | early _ set => rw [armed] at set; cases set
    | timeout empty waits =>
        obtain done | ⟨variant, -⟩ := rest
        · obtain ⟨-, at_⟩ | ⟨-, at_⟩ := waits <;> rw [at_] at done <;> cases done
        · subst variant
          obtain ⟨other, -⟩ | ⟨other, -⟩ := waits <;> cases other
    | echo sent => rw [none] at sent; cases sent
    | lose sent => rw [none] at sent; cases sent

/-- The store at `recvline[-1]`. -/
theorem fail_iff (at_ : s.pc = .receiving) :
    (∃ fault, s.fail v = .error (.fault fault)) ↔ v ≠ .clientV1 := by
  cases v with
  | clientV1 => simp [State.fail, at_]
  | clientV2 | cliV3 => simp [State.fail, at_]

/-- Every reply that is printed is the echo of a line that was sent, unchanged. It is late by the
timeouts before it, less the losses before it: so after a reply that was only late, each line is
answered with the echo of an earlier one. -/
theorem prints {p : Print} (run : Steps (Step v) (.init lines recvline) as s)
    (mem : p ∈ s.printed) :
    (lines[p.reply.number]?).map Line.datagram = some p.text ∧
    p.reply.number ≤ p.line ∧
    p.reply.number + p.timeouts = p.line + s.lost.countP (· < p.reply.number) := by
  have inv := Inv.of_steps run
  obtain ⟨i, at_⟩ := List.mem_iff_getElem?.mp mem
  obtain ⟨place, before⟩ := inv.place i p at_
  have number := inv.stream.number_eq (i := i) (k := p.reply.number) (by simp [at_])
  exact ⟨inv.texts p mem, before, by omega⟩

/-- The reply to the first line comes behind its timeout, and is printed for the second line. -/
theorem prints_late :
    ∃ as s, Steps (Step .cliV3)
        (.init [⟨[97, 10], by decide⟩, ⟨[98, 10], by decide⟩] (Vector.replicate 512 0)) as s ∧
      s.timeouts = 1 ∧ s.lost = [] ∧ ∃ p ∈ s.printed, p.line = p.reply.number + 1 := by
  have late : ∃ s, Steps (Step .cliV3)
      (.init [⟨[97, 10], by decide⟩, ⟨[98, 10], by decide⟩] (Vector.replicate 512 0))
      [.run, .run, .timeout, .echo, .run, .run] s ∧
      s.pc = .receiving ∧ s.queue = [⟨0, [97, 10]⟩] ∧ s.timeouts = 1 ∧ s.lost = [] :=
    ⟨_, Steps.of_foldlM_except rfl, rfl, rfl, rfl, rfl⟩
  obtain ⟨s, run, at_, waiting, timeouts, lost⟩ := late
  have variant : Variant.cliV3 ≠ .clientV1 := by decide
  obtain ⟨recvline, receive⟩ := (Inv.of_steps run).receive_eq at_ waiting variant
  have last : Step .cliV3 s .receive _ := receive
  have whole := run.append (.single last)
  refine ⟨_, _, whole, timeouts, lost, _, List.mem_append_right _ List.mem_cons_self, ?_⟩
  have number := (prints whole (List.mem_append_right _ List.mem_cons_self)).2.2
  simpa only [timeouts, lost, List.countP_nil, Nat.add_zero] using number.symm

/-- If no call fails but for a timeout, the clients always come to an end, and never leave their
arrays. In the end each line has got a reply or a timeout. Only `dg_client_v1` may also wait for
ever: if its alarm goes off before `recvfrom` waits, and no reply comes. Only the others leave
their arrays where `recvfrom` fails. -/
theorem answered_or_hung (run : Steps (Step v) (.init lines recvline) as s) :
    as.length ≤ 8 * lines.length + 1 ∧
    (∀ act fault, s.step v act ≠ .error (.fault fault)) ∧
    (Stuck (Step v) s ↔ s.pending = [] ∧ (s.pc = .done ∨ s.hung v)) ∧
    (s.pc = .done → s.printed.length + s.timeouts = lines.length) ∧
    (s.pc = .receiving → ((∃ fault, s.fail v = .error (.fault fault)) ↔ v ≠ .clientV1)) := by
  have inv := Inv.of_steps run
  refine ⟨?_, inv.ne_fault, inv.stuck_iff, fun at_ => ?_, fail_iff⟩
  · have bound := (ranked v lines).length_le run (.init v lines recvline)
    have start : (State.init lines recvline).rank = 8 * lines.length + 1 := rfl
    omega
  · have all := inv.input.symm.trans (inv.finished at_)
    have sent := List.drop_eq_nil_iff.mp all
    have waits : s.pc.waits = false := by rw [at_]; rfl
    have count := inv.count
    have inside := inv.inside
    rw [waits, Bool.toNat_false] at count
    omega

/-- The alarm goes off in front of `recvfrom`, and the line is lost. -/
theorem answered_or_hung_early :
    ∃ as s, Steps (Step .clientV1) (.init [⟨[97, 10], by decide⟩] (Vector.replicate 512 0)) as s ∧
      Stuck (Step .clientV1) s ∧ s.pc = .receiving ∧ s.printed = [] ∧ s.timeouts = 0 := by
  have hung : ∃ s, Steps (Step .clientV1)
      (.init [⟨[97, 10], by decide⟩] (Vector.replicate 512 0))
      [.run, .run, .timeout, .run, .lose 0] s ∧
      s.pending = [] ∧ s.hung .clientV1 ∧ s.printed = [] ∧ s.timeouts = 0 :=
    ⟨_, Steps.of_foldlM_except rfl, rfl, ⟨rfl, rfl, rfl, rfl⟩, rfl, rfl⟩
  obtain ⟨s, run, none, hung, printed, timeouts⟩ := hung
  exact ⟨_, s, run, (answered_or_hung run).2.2.1.mpr ⟨none, .inr hung⟩, hung.2.1, printed, timeouts⟩

end UnixProgramming.EchoUdp.Timeout
