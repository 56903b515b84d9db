import UnixProgramming.Library.CString
import UnixProgramming.Library.Fallible
import UnixProgramming.Library.Transition

/-!
# `dg_client_v2` of `echo_udp_client_v1.c`

The client sends a line, receives one datagram and prints it, if its sender is the server. A
datagram of another sender is taken in the place of the echo: the client goes on with the next
line, and from then on each echo is late.
-/

namespace UnixProgramming.EchoUdp

open CMemory Fallible Transition

def MAXLINE : Nat := 512

/-- An input line that `fgets` stores as a whole. -/
structure Line where
  bytes : Block
  short : bytes.length < MAXLINE

/-- The `strlen(sendline)` bytes that are sent. -/
def Line.datagram (line : Line) : Block := line.bytes.take (strlen line.bytes)

structure Datagram where
  source : Block
  data : Block
  deriving DecidableEq

inductive Pc
  | fgets
  | recvfrom
  | done
  deriving DecidableEq

/-- The calls with an effect outside, and the lines of `LOG_I` and `LOG_E`. -/
inductive Event
  | sendto (data : Block)
  | fputs (text : Block)
  | logReply
  | logIgnored
  deriving DecidableEq

/-- The client, the datagrams that are on their way to the server, and those that are in the
client's socket. `received` are those that `recvfrom` has returned. -/
structure State where
  input : List Line
  pc : Pc
  recvline : Block
  replyAddr : Block
  pending : List Block
  queue : List Datagram
  received : List Datagram
  trace : List Event

/-- `recvline` and the block of `Malloc` are not initialised. -/
def State.init (lines : List Line) (recvline : Vector UInt8 513) (replyAddr : Vector UInt8 16) :
    State :=
  ⟨lines, .fgets, recvline.toList, replyAddr.toList, [], [], [], []⟩

/-- The steps of the client up to its next call that waits, an echo of the server, and the arrival
of a datagram that is not the server's. -/
inductive Action
  | fgets
  | recvfrom
  | echo
  | foreign (d : Datagram)

/-- Why an action is not taken. -/
inductive Stop
  | blocked
  | fault (f : Fault)
  deriving DecidableEq

section Client

-- the address of the server, a `struct sockaddr_in`
variable (servaddr : Vector UInt8 16)

/-- From `Fgets` to `Recvfrom`. -/
def State.fgets (s : State) : State :=
  match s.input with
  | [] => { s with pc := .done }
  | line :: input =>
      { s with
        input
        pc := .recvfrom
        pending := s.pending ++ [line.datagram]
        trace := s.trace ++ [.sendto line.datagram] }

/-- From `Recvfrom` to `Fgets`. The address is cut off at `reply_addr_len`, which becomes its
length. -/
def State.recvfrom (s : State) (d : Datagram) (queue : List Datagram) : Except Fault State := do
  let data := d.data.take (MAXLINE + 1)
  let s := { s with
    pc := .fgets
    recvline := fill s.recvline data
    replyAddr := fill s.replyAddr (d.source.take 16)
    queue
    received := s.received ++ [d] }
  if d.source.length ≠ 16 ∨ s.replyAddr.take 16 ≠ servaddr.toList then
    -- `continue`
    return { s with trace := s.trace ++ [.logIgnored] }
  else
    let recvline ← store s.recvline data.length 0
    let text ← readString recvline
    return { s with recvline, trace := s.trace ++ [.logReply, .fputs text] }

def State.step (s : State) : Action → Except Stop State
  | .fgets => if s.pc = .fgets then return s.fgets else .error .blocked
  | .recvfrom =>
      match s.pc, s.queue with
      | .recvfrom, d :: queue => (s.recvfrom servaddr d queue).mapError .fault
      | _, _ => .error .blocked
  | .echo =>
      match s.pending with
      | data :: pending =>
          return { s with pending, queue := s.queue ++ [⟨servaddr.toList, data⟩] }
      | [] => .error .blocked
  | .foreign d =>
      if d.source ≠ servaddr.toList then return { s with queue := s.queue ++ [d] }
      else .error .blocked

/-- A step of the system. -/
def Step (s : State) (a : Action) (t : State) : Prop := s.step servaddr a = .ok t

def FromServer (d : Datagram) : Prop := d.source = servaddr.toList

instance : DecidablePred (FromServer servaddr) := fun d =>
  inferInstanceAs (Decidable (d.source = servaddr.toList))

/-- The echoes that the client has not received. -/
def State.outstanding (s : State) : List Block :=
  (s.queue.filter (FromServer servaddr)).map Datagram.data ++ s.pending

end Client

namespace Event

def isSend : Event → Bool
  | sendto _ => true
  | _ => false

def isPrint : Event → Bool
  | fputs _ => true
  | _ => false

end Event

/-- The lines that are sent and the texts that are printed, without the log. -/
def State.exchange (s : State) : List Event := s.trace.filter fun e => e.isSend || e.isPrint

/-- A line is sent, and its echo is printed. -/
def exchangeOf (line : Line) : List Event := [.sendto line.datagram, .fputs line.datagram]

/-- The lines up to here were sent and echoed one after the other, and only the echo of the line
that was sent last may be missing. It is still to come. -/
def Paired (servaddr : Vector UInt8 16) (lines : List Line) (s : State) : Prop :=
  ∃ taken, lines = taken ++ s.input ∧
    match s.pc with
    | .fgets => s.exchange = taken.flatMap exchangeOf ∧ s.outstanding servaddr = []
    | .recvfrom => ∃ earlier last, taken = earlier ++ [last] ∧
        s.exchange = earlier.flatMap exchangeOf ++ [.sendto last.datagram] ∧
        s.outstanding servaddr = [last.datagram]
    | .done => s.input = [] ∧ s.exchange = taken.flatMap exchangeOf ∧ s.outstanding servaddr = []

section Receive

variable {servaddr : Vector UInt8 16} {s : State} {d : Datagram} {queue : List Datagram}

theorem fill_take {b bytes : Block} (whole : bytes.length = b.length) : fill b bytes = bytes := by
  rw [fill, whole, List.drop_length, List.append_nil]

/-- A datagram of another sender is dropped, and the client goes on with the next line. -/
theorem recvfrom_foreign (size : s.replyAddr.length = 16) (foreign : ¬ FromServer servaddr d) :
    s.recvfrom servaddr d queue = .ok { s with
      pc := .fgets
      recvline := fill s.recvline (d.data.take (MAXLINE + 1))
      replyAddr := fill s.replyAddr (d.source.take 16)
      queue
      received := s.received ++ [d]
      trace := s.trace ++ [.logIgnored] } := by
  have other : d.source.length ≠ 16 ∨
      (fill s.replyAddr (d.source.take 16)).take 16 ≠ servaddr.toList := by
    by_contra same
    obtain ⟨whole, same⟩ := not_or.mp same
    rw [not_not] at whole same
    rw [List.take_of_length_le whole.le, fill_take (whole.trans size.symm),
      List.take_of_length_le whole.le] at same
    exact foreign same
  rw [State.recvfrom]
  exact if_pos other

/-- An echo is printed as it is. -/
theorem recvfrom_echo (size : s.replyAddr.length = 16) (room : s.recvline.length = MAXLINE + 1)
    (server : FromServer servaddr d) (plain : 0 ∉ d.data) (short : d.data.length < MAXLINE) :
    ∃ recvline, recvline.length = MAXLINE + 1 ∧
      s.recvfrom servaddr d queue = .ok { s with
        pc := .fgets
        recvline
        replyAddr := servaddr.toList
        queue
        received := s.received ++ [d]
        trace := s.trace ++ [.logReply, .fputs d.data] } := by
  have whole : d.data.take (MAXLINE + 1) = d.data := List.take_of_length_le (by omega)
  have source : d.source.length = 16 := by
    rw [server]
    exact Vector.length_toList
  have address : fill s.replyAddr (d.source.take 16) = servaddr.toList := by
    rw [List.take_of_length_le source.le, fill_take (source.trans size.symm), server]
  have same : ¬ (d.source.length ≠ 16 ∨
      (fill s.replyAddr (d.source.take 16)).take 16 ≠ servaddr.toList) := by
    rw [address, List.take_of_length_le Vector.length_toList.le]
    simp [source]
  obtain ⟨old, back, rest⟩ : ∃ old back, s.recvline.drop d.data.length = old :: back := by
    apply List.exists_cons_of_length_pos
    rw [List.length_drop, room]
    omega
  have filled : fill s.recvline d.data = d.data ++ old :: back := by rw [fill, rest]
  refine ⟨d.data ++ 0 :: back, ?_, ?_⟩
  · have length := length_fill (by omega : d.data.length ≤ s.recvline.length)
    rw [filled, room, List.length_append, List.length_cons] at length
    rw [List.length_append, List.length_cons, length]
  · rw [State.recvfrom]
    dsimp only
    rw [if_neg same, whole, filled, store_append_cons, ok_bind, readString_append_nul plain,
      ok_bind, address]
    rfl

end Receive

/-- What holds in every run. -/
structure Inv (servaddr : Vector UInt8 16) (s : State) : Prop where
  recvline : s.recvline.length = MAXLINE + 1
  replyAddr : s.replyAddr.length = 16
  echoes : ∀ data ∈ s.outstanding servaddr, 0 ∉ data ∧ data.length < MAXLINE
  sends : s.exchange.countP Event.isSend =
    s.received.length + if s.pc = .recvfrom then 1 else 0
  prints : s.exchange.countP Event.isPrint = s.received.countP (FromServer servaddr)

section Step

variable {servaddr : Vector UInt8 16} {lines : List Line} {s t : State}

theorem Line.datagram_plain (line : Line) :
    0 ∉ line.datagram ∧ line.datagram.length < MAXLINE := by
  refine ⟨notMem_take_of_le_strlen le_rfl, ?_⟩
  have short := line.short
  rw [Line.datagram, List.length_take]
  omega

/-- What is written for a datagram that was received. -/
def replyEvents (servaddr : Vector UInt8 16) (d : Datagram) : List Event :=
  if FromServer servaddr d then [.logReply, .fputs d.data] else [.logIgnored]

theorem recvfrom_eq (inv : Inv servaddr s) {d : Datagram} {queue : List Datagram}
    (waiting : s.queue = d :: queue) :
    ∃ recvline replyAddr, recvline.length = MAXLINE + 1 ∧ replyAddr.length = 16 ∧
      s.recvfrom servaddr d queue = .ok { s with
        pc := .fgets
        recvline
        replyAddr
        queue
        received := s.received ++ [d]
        trace := s.trace ++ replyEvents servaddr d } := by
  by_cases server : FromServer servaddr d
  · have mem : d.data ∈ s.outstanding servaddr := by
      rw [State.outstanding, waiting, List.filter_cons_of_pos (by simpa using server)]
      simp
    obtain ⟨plain, short⟩ := inv.echoes d.data mem
    obtain ⟨recvline, room, run⟩ :=
      @recvfrom_echo servaddr s d queue inv.replyAddr inv.recvline server plain short
    refine ⟨recvline, servaddr.toList, room, Vector.length_toList, ?_⟩
    rw [run, replyEvents, if_pos server]
  · refine ⟨fill s.recvline (d.data.take (MAXLINE + 1)), fill s.replyAddr (d.source.take 16),
      ?_, ?_, ?_⟩
    · rw [length_fill, inv.recvline]
      rw [inv.recvline, List.length_take]
      omega
    · rw [length_fill, inv.replyAddr]
      rw [inv.replyAddr, List.length_take]
      omega
    · rw [recvfrom_foreign inv.replyAddr server, replyEvents, if_neg server]

/-- What a step does. -/
theorem step_cases {a : Action} (inv : Inv servaddr s) (step : Step servaddr s a t) :
    (s.pc = .fgets ∧ t = s.fgets) ∨
    (∃ d queue recvline replyAddr, s.pc = .recvfrom ∧ s.queue = d :: queue ∧
      recvline.length = MAXLINE + 1 ∧ replyAddr.length = 16 ∧
      t = { s with
        pc := .fgets
        recvline
        replyAddr
        queue
        received := s.received ++ [d]
        trace := s.trace ++ replyEvents servaddr d }) ∨
    (∃ data pending, s.pending = data :: pending ∧
      t = { s with pending, queue := s.queue ++ [⟨servaddr.toList, data⟩] }) ∨
    ∃ d, ¬ FromServer servaddr d ∧ t = { s with queue := s.queue ++ [d] } := by
  cases a with
  | fgets =>
      rw [Step, State.step] at step
      split at step
      case isTrue top => exact .inl ⟨top, (Except.ok.inj step).symm⟩
      case isFalse => cases step
  | recvfrom =>
      rw [Step, State.step] at step
      split at step
      case h_1 d queue top waiting =>
        obtain ⟨recvline, replyAddr, room, size, run⟩ := recvfrom_eq inv waiting
        rw [run] at step
        exact .inr (.inl ⟨d, queue, recvline, replyAddr, top, waiting, room, size,
          (Except.ok.inj step).symm⟩)
      case h_2 => cases step
  | echo =>
      rw [Step, State.step] at step
      split at step
      case h_1 data pending sent =>
        exact .inr (.inr (.inl ⟨data, pending, sent, (Except.ok.inj step).symm⟩))
      case h_2 => cases step
  | foreign d =>
      rw [Step, State.step] at step
      split at step
      case isTrue other => exact .inr (.inr (.inr ⟨d, other, (Except.ok.inj step).symm⟩))
      case isFalse => cases step

/-- The client reads and writes inside of its arrays. -/
theorem step_ne_fault (inv : Inv servaddr s) (a : Action) (f : Fault) :
    s.step servaddr a ≠ .error (.fault f) := by
  intro fault
  cases a with
  | fgets =>
      rw [State.step] at fault
      split at fault <;> cases fault
  | recvfrom =>
      rw [State.step] at fault
      split at fault
      case h_1 d queue top waiting =>
        obtain ⟨recvline, replyAddr, -, -, run⟩ := recvfrom_eq inv waiting
        rw [run] at fault
        cases fault
      case h_2 => cases fault
  | echo =>
      rw [State.step] at fault
      split at fault <;> cases fault
  | foreign d =>
      rw [State.step] at fault
      split at fault <;> cases fault

theorem exchange_append (s : State) (events : List Event) :
    (s.trace ++ events).filter (fun e => e.isSend || e.isPrint) =
      s.exchange ++ events.filter fun e => e.isSend || e.isPrint := List.filter_append ..

theorem filter_replyEvents (d : Datagram) :
    (replyEvents servaddr d).filter (fun e => e.isSend || e.isPrint) =
      if FromServer servaddr d then [.fputs d.data] else [] := by
  rw [replyEvents]
  split <;> rfl

/-- The server's datagram moves on in the order of the echoes. -/
theorem outstanding_echo {data : Block} {pending : List Block}
    (sent : s.pending = data :: pending) :
    State.outstanding servaddr { s with
      pending, queue := s.queue ++ [⟨servaddr.toList, data⟩] } = s.outstanding servaddr := by
  have own : FromServer servaddr ⟨servaddr.toList, data⟩ := rfl
  simp [State.outstanding, List.filter_append, own, sent]

theorem outstanding_foreign {d : Datagram} (other : ¬ FromServer servaddr d) :
    State.outstanding servaddr { s with queue := s.queue ++ [d] } = s.outstanding servaddr := by
  simp [State.outstanding, List.filter_append, other]

theorem outstanding_queue {d : Datagram} {queue : List Datagram} (waiting : s.queue = d :: queue) :
    s.outstanding servaddr = (if FromServer servaddr d then [d.data] else []) ++
      ((queue.filter (FromServer servaddr)).map Datagram.data ++ s.pending) := by
  rw [State.outstanding, waiting]
  by_cases own : FromServer servaddr d
  · simp [own]
  · simp [own]

theorem Inv.init (recvline : Vector UInt8 513) (replyAddr : Vector UInt8 16) :
    Inv servaddr (.init lines recvline replyAddr) where
  recvline := Vector.length_toList
  replyAddr := Vector.length_toList
  echoes data mem := by cases mem
  sends := rfl
  prints := rfl

theorem Inv.step {a : Action} (inv : Inv servaddr s) (step : Step servaddr s a t) :
    Inv servaddr t := by
  obtain ⟨recvline, replyAddr, echoes, sends, prints⟩ := inv
  obtain ⟨top, rfl⟩ | ⟨d, queue, line, addr, top, waiting, room, size, rfl⟩ |
    ⟨data, pending, sent, rfl⟩ | ⟨d, other, rfl⟩ :=
      step_cases ⟨recvline, replyAddr, echoes, sends, prints⟩ step
  · rw [top] at sends
    cases input : s.input with
    | nil =>
        rw [State.fgets, input]
        exact ⟨recvline, replyAddr, echoes, sends, prints⟩
    | cons line input =>
        rw [State.fgets, input]
        refine ⟨recvline, replyAddr, fun data mem => ?_, ?_, ?_⟩
        · rw [State.outstanding, ← List.append_assoc] at mem
          obtain mem | mem := List.mem_append.mp mem
          · exact echoes data mem
          · obtain rfl := List.mem_singleton.mp mem
            exact line.datagram_plain
        · rw [State.exchange, exchange_append, List.countP_append, sends]
          rfl
        · rw [State.exchange, exchange_append, List.countP_append, prints]
          rfl
  · rw [top] at sends
    rw [outstanding_queue waiting] at echoes
    refine ⟨room, size, fun data mem => echoes data (List.mem_append_right _ mem), ?_, ?_⟩
    · rw [State.exchange, exchange_append, filter_replyEvents, List.countP_append, sends,
        List.length_append]
      by_cases own : FromServer servaddr d
      · simp [own, Event.isSend]
      · simp [own]
    · rw [State.exchange, exchange_append, filter_replyEvents, List.countP_append, prints,
        List.countP_append]
      by_cases own : FromServer servaddr d
      · simp [own, Event.isPrint]
      · simp [own]
  · exact ⟨recvline, replyAddr, (outstanding_echo sent).symm ▸ echoes, sends, prints⟩
  · exact ⟨recvline, replyAddr, (outstanding_foreign other).symm ▸ echoes, sends, prints⟩

/-- While only the server's datagrams are received, the lines and their echoes take turns. -/
theorem Paired.step {a : Action} (inv : Inv servaddr s)
    (paired : (∀ d ∈ s.received, FromServer servaddr d) → Paired servaddr lines s)
    (step : Step servaddr s a t) (own : ∀ d ∈ t.received, FromServer servaddr d) :
    Paired servaddr lines t := by
  obtain ⟨top, rfl⟩ | ⟨d, queue, line, addr, top, waiting, -, -, rfl⟩ |
    ⟨data, pending, sent, rfl⟩ | ⟨d, other, rfl⟩ := step_cases inv step
  · cases given : s.input with
    | nil =>
        have fgets : s.fgets = { s with pc := .done } := by rw [State.fgets, given]
        rw [fgets] at own ⊢
        obtain ⟨taken, split, turns⟩ := paired own
        rw [top] at turns
        exact ⟨taken, split, given, turns⟩
    | cons line input =>
        have fgets : s.fgets = { s with
            input
            pc := .recvfrom
            pending := s.pending ++ [line.datagram]
            trace := s.trace ++ [.sendto line.datagram] } := by rw [State.fgets, given]
        rw [fgets] at own ⊢
        obtain ⟨taken, split, turns⟩ := paired own
        rw [top] at turns
        obtain ⟨turns, outstanding⟩ := turns
        refine ⟨taken ++ [line], ?_, taken, line, rfl, ?_, ?_⟩
        · rw [split, given, List.append_assoc]
          rfl
        · rw [State.exchange, exchange_append, turns]
          rfl
        · rw [State.outstanding, ← List.append_assoc]
          exact congrArg (· ++ [line.datagram]) outstanding
  · have ownHere : FromServer servaddr d :=
      own d (List.mem_append_right _ (List.mem_singleton_self d))
    obtain ⟨taken, split, turns⟩ := paired fun d' mem => own d' (List.mem_append_left _ mem)
    rw [top, outstanding_queue waiting, if_pos ownHere] at turns
    obtain ⟨earlier, last, rfl, turns, outstanding⟩ := turns
    -- the echo that is received is the one that is still to come
    obtain ⟨echo, rest⟩ := List.cons.inj outstanding
    refine ⟨earlier ++ [last], split, ?_, rest⟩
    rw [State.exchange, exchange_append, filter_replyEvents, if_pos ownHere, turns, echo,
      List.flatMap_append, List.append_assoc]
    rfl
  · obtain ⟨taken, split, turns⟩ := paired own
    refine ⟨taken, split, ?_⟩
    rw [outstanding_echo sent]
    exact turns
  · obtain ⟨taken, split, turns⟩ := paired own
    refine ⟨taken, split, ?_⟩
    rw [outstanding_foreign other]
    exact turns

theorem paired_init (recvline : Vector UInt8 513) (replyAddr : Vector UInt8 16) :
    Paired servaddr lines (.init lines recvline replyAddr) := ⟨[], rfl, rfl, rfl⟩

theorem countP_turns (taken : List Line) :
    (taken.flatMap exchangeOf).countP Event.isSend = taken.length ∧
      (taken.flatMap exchangeOf).countP Event.isPrint = taken.length := by
  induction taken with
  | nil => exact ⟨rfl, rfl⟩
  | cons line taken ih =>
      obtain ⟨sends, prints⟩ := ih
      rw [List.flatMap_cons, List.countP_append, List.countP_append, sends, prints,
        List.length_cons, Nat.add_comm taken.length]
      exact ⟨rfl, rfl⟩

/-- Lines and echoes that take turns are equally many, so each datagram was an echo. -/
theorem own_of_paired (inv : Inv servaddr s) (paired : Paired servaddr lines s) :
    ∀ d ∈ s.received, FromServer servaddr d := by
  obtain ⟨taken, -, turns⟩ := paired
  have sends := inv.sends
  have prints := inv.prints
  have all : s.received.countP (FromServer servaddr) = s.received.length := by
    cases top : s.pc with
    | fgets =>
        rw [top] at turns sends
        obtain ⟨send, print⟩ := countP_turns taken
        rw [turns.1] at sends prints
        simp only [reduceCtorEq, if_false] at sends
        omega
    | recvfrom =>
        rw [top] at turns sends
        obtain ⟨earlier, last, -, turns, -⟩ := turns
        obtain ⟨send, print⟩ := countP_turns earlier
        rw [turns, List.countP_append] at sends prints
        simp only [List.countP_singleton, Event.isSend, Event.isPrint, if_true] at sends prints
        simp at sends prints
        omega
    | done =>
        rw [top] at turns sends
        obtain ⟨send, print⟩ := countP_turns taken
        rw [turns.2.1] at sends prints
        simp only [reduceCtorEq, if_false] at sends
        omega
  simpa using List.countP_eq_length.mp all

end Step

section Runs

variable {servaddr : Vector UInt8 16} {lines : List Line} {recvline : Vector UInt8 513}
  {replyAddr : Vector UInt8 16} {s : State}

theorem reachable_inv (h : Reachable (Step servaddr) (.init lines recvline replyAddr) s) :
    Inv servaddr s ∧
      ((∀ d ∈ s.received, FromServer servaddr d) → Paired servaddr lines s) := by
  have start : Inv servaddr (.init lines recvline replyAddr) := .init recvline replyAddr
  apply h.invariant (I := fun s =>
    Inv servaddr s ∧ ((∀ d ∈ s.received, FromServer servaddr d) → Paired servaddr lines s))
  · exact ⟨start, fun _ => paired_init recvline replyAddr⟩
  · rintro s a t ⟨inv, paired⟩ step
    exact ⟨inv.step step, Paired.step inv paired step⟩

theorem paired_iff_own (h : Reachable (Step servaddr) (.init lines recvline replyAddr) s) :
    Paired servaddr lines s ↔ ∀ d ∈ s.received, FromServer servaddr d :=
  ⟨own_of_paired (reachable_inv h).1, (reachable_inv h).2⟩

end Runs

/-- The client stays in its arrays, and requests and replies are paired exactly where no datagram
of another sender was received. -/
theorem dgClientV2_paired_iff {servaddr : Vector UInt8 16} {lines : List Line}
    {recvline : Vector UInt8 513} {replyAddr : Vector UInt8 16} {s : State}
    (h : Reachable (Step servaddr) (.init lines recvline replyAddr) s) :
    (∀ a f, s.step servaddr a ≠ .error (.fault f)) ∧
      (Paired servaddr lines s ↔ ∀ d ∈ s.received, FromServer servaddr d) :=
  ⟨step_ne_fault (reachable_inv h).1, paired_iff_own h⟩

/-- The address 127.0.0.1 with the port 9999. -/
def localServer : Vector UInt8 16 := #v[2, 0, 39, 15, 127, 0, 0, 1, 0, 0, 0, 0, 0, 0, 0, 0]

def twoLines : List Line := [⟨ascii "a\n", by decide⟩, ⟨ascii "b\n", by decide⟩]

def twoStart : State := .init twoLines (.replicate 513 0) (.replicate 16 0)

/-- Both lines are echoed before the next call of the client. -/
theorem dgClientV2_paired_two :
    ∃ s, Reachable (Step localServer) twoStart s ∧
      s.exchange = twoLines.flatMap exchangeOf ∧
      (∀ a f, s.step localServer a ≠ .error (.fault f)) ∧
      (Paired localServer twoLines s ↔ ∀ d ∈ s.received, FromServer localServer d) := by
  obtain ⟨s, run, exchange⟩ : ∃ s, Steps (Step localServer) twoStart
      [.fgets, .echo, .recvfrom, .fgets, .echo, .recvfrom] s ∧
      s.exchange = twoLines.flatMap exchangeOf :=
    Steps.exists_of_foldlM_except (by decide +kernel)
  exact ⟨s, ⟨_, run⟩, exchange, dgClientV2_paired_iff ⟨_, run⟩⟩

/-- A datagram of another sender arrives before the first echo, which is then printed for the
second line. -/
theorem dgClientV2_late :
    ∃ s, Reachable (Step localServer) twoStart s ∧
      s.exchange = [.sendto (ascii "a\n"), .sendto (ascii "b\n"), .fputs (ascii "a\n")] ∧
      ¬ Paired localServer twoLines s := by
  obtain ⟨s, run, exchange, received⟩ : ∃ s, Steps (Step localServer) twoStart
      [.fgets, .foreign ⟨[2, 0], ascii "x"⟩, .echo, .recvfrom, .fgets, .recvfrom] s ∧
      s.exchange = [.sendto (ascii "a\n"), .sendto (ascii "b\n"), .fputs (ascii "a\n")] ∧
      ⟨[2, 0], ascii "x"⟩ ∈ s.received :=
    Steps.exists_of_foldlM_except (by decide +kernel)
  refine ⟨s, ⟨_, run⟩, exchange, fun paired => ?_⟩
  have own := (paired_iff_own ⟨_, run⟩).mp paired _ received
  exact absurd own (by decide)

end UnixProgramming.EchoUdp
