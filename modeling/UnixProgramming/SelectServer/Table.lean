import UnixProgramming.SelectServer.Loop
import UnixProgramming.Library.SlotTable
import UnixProgramming.Unp.Writen
import Mathlib.Data.Int.Interval

/-!
# The tables of the select server

The bits of `allset` are the listening socket and the open connections, each of which has
one slot of `client` below `maxi`. As long as every descriptor has a bit, a slot is free
for the next connection.
-/

namespace UnixProgramming.SelectServer

open CMemory Descriptor Transition Unp

namespace State

/-- The bytes of one `read`, and what the `Writen` of them has sent. -/
def echoed (s : State) (i : Nat) (bytes : Block) (out : Sink) : State :=
  { s with
    buff := fill s.buff bytes
    conn := Function.update s.conn (s.client i) ((s.conn (s.client i)).map fun tr =>
      ⟨tr.got ++ bytes, tr.sent ++ bytes.take (sends out bytes.length)⟩)
    served := s.client i :: s.served }

/-- The bytes of one `read`, on which the log line goes on behind the end of `buff`. -/
def overread (s : State) (i : Nat) (bytes : Block) : State :=
  { s.receive i bytes with pc := .undefined, served := s.client i :: s.served }

/-- The end of a connection. -/
def ended (s : State) (i : Nat) : State :=
  { s.close i with served := s.client i :: s.served }

end State

/-- Undefined behaviour. What the connections have been sent up to there is known. -/
structure Lost (s s' : State) : Prop where
  undefined : s'.pc = .undefined
  buff : s'.buff = s.buff
  conn : s'.conn = s.conn
  closed : s'.closed = s.closed

/-- What one step can do. -/
inductive Effect (s : State) : Action → State → Prop
  | select (r : SelectResult) (at_ : s.pc = .select) : Effect s (.select r) (s.select r)
  | full {connfd : Int} (at_ : s.pc = .listen) (full : s.freeSlot = none) :
      Effect s (.accept connfd) { s with pc := .exited }
  | fullFails (at_ : s.pc = .listen) (full : s.freeSlot = none) :
      Effect s .acceptFails { s with pc := .exited }
  | accept {connfd : Int} {i : Nat} (at_ : s.pc = .listen) (ready : s.listenfd ∈ s.rset)
      (fresh : s.Fresh connfd) (inside : InSet connfd) (free : s.freeSlot = some i) :
      Effect s (.accept connfd)
        (((s.setClient i connfd).watch i connfd).countReady (.scan 0))
  | noBit {connfd : Int} {s' : State} (outside : ¬ InSet connfd) (lost : Lost s s') :
      Effect s (.accept connfd) s'
  | noBitFails {s' : State} (lost : Lost s s') : Effect s .acceptFails s'
  | noConnection (at_ : s.pc = .listen) (quiet : s.listenfd ∉ s.rset) :
      Effect s .noConnection { s with pc := .scan 0 }
  | pass {i : Nat} (at_ : s.pc = .scan i) (inside : i ≤ s.maxi) (quiet : s.ready i = false) :
      Effect s .pass { s with pc := .scan (i + 1) }
  | echo {i : Nat} {bytes : Block} {out : Sink} (at_ : s.pc = .scan i) (inside : i ≤ s.maxi)
      (ready : s.ready i = true) (some : 0 < bytes.length) (fits : bytes.length ≤ MAXLINE)
      (ends : 0 ∈ fill s.buff bytes) :
      Effect s (.serve (.data bytes out))
        ((s.echoed i bytes out).countReady (.scan (i + 1)))
  | overread {i : Nat} {bytes : Block} {out : Sink} (ready : s.ready i = true)
      (some : 0 < bytes.length) (endless : 0 ∉ fill s.buff bytes) :
      Effect s (.serve (.data bytes out)) (s.overread i bytes)
  | ended {i : Nat} (at_ : s.pc = .scan i) (inside : i ≤ s.maxi) (ready : s.ready i = true) :
      Effect s (.serve .eof) ((s.ended i).countReady (.scan (i + 1)))
  | overrun {out : Sink} {s' : State} (lost : Lost s s') : Effect s (.serve (.error out)) s'
  | endScan {i : Nat} (at_ : s.pc = .scan i) (outside : s.maxi < i) :
      Effect s .endScan { s with pc := .select }

/-- Behind the log line. -/
theorem echo_of_nul {s : State} {i : Nat} {bytes : Block} {n : Int} {out : Sink}
    (ends : 0 ∈ fill s.buff bytes) :
    s.echo i bytes n out = (s.receive i bytes).sendBack i n out := by
  have text : readString (s.receive i bytes).buff = .ok (cString (fill s.buff bytes)) :=
    if_pos ends
  simp only [State.echo, text]

theorem visit_endless {s : State} {i : Nat} {bytes : Block} {out : Sink}
    (endless : 0 ∉ fill s.buff bytes) : s.visit i (.data bytes out) = s.overread i bytes := by
  have beyond : readString (s.receive i bytes).buff =
      .error (.outOfBounds (fill s.buff bytes).length) := if_neg endless
  simp only [State.visit, State.serve, State.echo, beyond, if_true]
  rfl

theorem visit_data {s : State} {i : Nat} {bytes : Block} {out : Sink}
    (size : s.buff.length = MAXLINE) (at_ : s.pc = .scan i) (fits : bytes.length ≤ MAXLINE)
    (ends : 0 ∈ fill s.buff bytes) :
    s.visit i (.data bytes out) = (s.echoed i bytes out).countReady (.scan (i + 1)) := by
  have small : asSize bytes.length = bytes.length := by
    have : bytes.length < 2 ^ 64 := Nat.lt_of_le_of_lt fits (by decide)
    simp only [asSize]
    omega
  have room : bytes.length ≤ (fill s.buff bytes).length :=
    (length_fill (size ▸ fits)).symm ▸ size ▸ fits
  obtain ⟨fd', run⟩ := writen_sends out room
  have wire : (fill s.buff bytes).take (sends out bytes.length) =
      bytes.take (sends out bytes.length) := by
    rw [fill, List.take_append_of_le_length (sends_le out _)]
  have both (conn : Option Traffic) (sent : Block) :
      (conn.map fun tr => (⟨tr.got ++ bytes, tr.sent⟩ : Traffic)).map
        (fun tr => (⟨tr.got, tr.sent ++ sent⟩ : Traffic)) =
      conn.map fun tr => ⟨tr.got ++ bytes, tr.sent ++ sent⟩ := Option.map_map _ _ conn
  simp only [State.visit, State.serve, echo_of_nul ends, State.sendBack, State.receive, small, run,
    wire, at_, Function.update_self, Function.update_idem, both]
  rfl

theorem lt_asSize : MAXLINE < asSize (-1) := by
  simp [asSize, MAXLINE]

/-- `Writen` is told to write more than there is in `buff`. -/
theorem sendBack_overrun {s : State} {i : Nat} {n : Int} {out : Sink}
    (beyond : s.buff.length < asSize n) : Lost s (s.sendBack i n out) := by
  have more : 0 < asSize n := by omega
  have outside : ¬ 0 + asSize n ≤ s.buff.length := by omega
  have overrun : ∃ fault, writen out s.buff (asSize n) = .error fault := by
    rw [writen, writenLoop, if_pos more, loadRange, if_neg outside]
    exact ⟨_, rfl⟩
  obtain ⟨fault, overrun⟩ := overrun
  constructor <;> simp only [State.sendBack, overrun]

/-- A `Read` that has failed changes nothing. -/
theorem receive_nil {s : State} {i : Nat} : s.receive i [] = s := by
  have same : (s.conn (s.client i)).map (fun tr => (⟨tr.got ++ [], tr.sent⟩ : Traffic)) =
      s.conn (s.client i) := by
    simp only [List.append_nil, Option.map_id']
  rw [State.receive, same, Function.update_eq_self, fill, List.length_nil, List.drop_zero,
    List.nil_append]

theorem visit_lost {s : State} {i : Nat} {r : ReadResult} (lost : Lost s (s.serve i r)) :
    Lost s (s.visit i r) := by
  constructor
  · simp only [State.visit, lost.undefined, if_true]
  · simp only [State.visit, lost.undefined, if_true, lost.buff]
  · simp only [State.visit, lost.undefined, if_true, lost.conn]
  · simp only [State.visit, lost.undefined, if_true, lost.closed]

/-- The -1 of a `Read` that has failed is a size. -/
theorem serve_error {s : State} {i : Nat} {out : Sink} (size : s.buff.length = MAXLINE) :
    Lost s (s.serve i (.error out)) := by
  have beyond : s.buff.length < asSize (-1) := lt_of_eq_of_lt size lt_asSize
  simp only [State.serve, State.echo, receive_nil]
  split
  · exact ⟨rfl, rfl, rfl, rfl⟩
  · exact sendBack_overrun beyond

section Accept

variable {s : State} {connfd : Int} {i : Nat}

theorem accept_full (full : s.freeSlot = none) : s.accept connfd = { s with pc := .exited } := by
  unfold State.accept
  rw [full]

theorem accept_free (free : s.freeSlot = some i) (inside : InSet connfd) :
    s.accept connfd = ((s.setClient i connfd).watch i connfd).countReady (.scan 0) := by
  unfold State.accept
  simp only [free, if_pos inside]

theorem accept_outside (free : s.freeSlot = some i) (outside : ¬ InSet connfd) :
    Lost s (s.accept connfd) := by
  unfold State.accept
  simp only [free, if_neg outside]
  exact ⟨rfl, rfl, rfl, rfl⟩

end Accept

theorem effect_of_step {s s' : State} {act : Action} (size : s.buff.length = MAXLINE)
    (h : Step s act s') : Effect s act s' := by
  cases act with
  | select r =>
      obtain ⟨at_, h⟩ := Option.ite_none_right_eq_some.mp h
      cases h
      exact .select r at_
  | accept connfd =>
      obtain ⟨⟨at_, ready, fresh⟩, h⟩ := Option.ite_none_right_eq_some.mp h
      rw [← Option.some.inj h]
      cases free : s.freeSlot with
      | none =>
          rw [accept_full free]
          exact .full at_ free
      | some i =>
          by_cases inside : InSet connfd
          · rw [accept_free free inside]
            exact .accept at_ ready fresh inside free
          · exact .noBit inside (accept_outside free inside)
  | acceptFails =>
      obtain ⟨⟨at_, -⟩, h⟩ := Option.ite_none_right_eq_some.mp h
      rw [← Option.some.inj h]
      cases free : s.freeSlot with
      | none =>
          rw [accept_full free]
          exact .fullFails at_ free
      | some i => exact .noBitFails (accept_outside free (by decide))
  | noConnection =>
      obtain ⟨⟨at_, quiet⟩, h⟩ := Option.ite_none_right_eq_some.mp h
      cases h
      exact .noConnection at_ quiet
  | pass =>
      simp only [Step, State.step] at h
      split at h
      · obtain ⟨⟨inside, quiet⟩, h⟩ := Option.ite_none_right_eq_some.mp h
        cases h
        exact .pass ‹_› inside quiet
      · cases h
  | serve r =>
      simp only [Step, State.step] at h
      split at h
      · rename_i i at_
        obtain ⟨⟨inside, ready, possible⟩, h⟩ := Option.ite_none_right_eq_some.mp h
        cases h
        cases r with
        | data bytes out =>
            by_cases ends : 0 ∈ fill s.buff bytes
            · rw [visit_data size at_ possible.2 ends]
              exact .echo at_ inside ready possible.1 possible.2 ends
            · rw [visit_endless ends]
              exact .overread ready possible.1 ends
        | eof =>
            have goes : s.visit i .eof = (s.ended i).countReady (.scan (i + 1)) := by
              simp only [State.visit, State.serve, State.close, State.setClient, at_]
              rfl
            rw [goes]
            exact .ended at_ inside ready
        | error out => exact .overrun (visit_lost (serve_error size))
      · cases h
  | endScan =>
      simp only [Step, State.step] at h
      split at h
      · obtain ⟨outside, h⟩ := Option.ite_none_right_eq_some.mp h
        cases h
        exact .endScan ‹_› outside
      · cases h

/-- The tables at any point of the loop. -/
structure Table (s : State) : Prop where
  size : s.buff.length = MAXLINE
  listen : InSet s.listenfd
  apart : s.conn s.listenfd = none
  slots : SlotTable.Holds s.client (-1) fun fd => s.conn fd ≠ none
  bits : ∀ fd, fd ∈ s.allset ↔ fd = s.listenfd ∨ s.conn fd ≠ none
  inside : ∀ fd, s.conn fd ≠ none → InSet fd
  below : ∀ fd ∈ s.allset, fd ≤ s.maxfd
  reached : ∀ i, s.client i ≠ -1 → (i : Int) ≤ s.maxi
  bound : s.maxi < FD_SETSIZE

namespace Table

variable {s s' : State} {act : Action} {i : Nat} {connfd : Int}

theorem init (start : Start) : Table (.init start) where
  size := start.size
  listen := start.inside
  apart := rfl
  slots := (SlotTable.Holds.empty fun _ => rfl).congr fun fd => ⟨fun h => h rfl, False.elim⟩
  bits fd := by simp [State.init]
  inside fd h := absurd rfl h
  below fd mem := by
    rw [Finset.mem_singleton.mp mem]
    exact le_refl start.listenfd
  reached i used := absurd rfl used
  bound := (by decide : (-1 : Int) < FD_SETSIZE)

/-- Only the tables themselves matter. -/
theorem congr (table : Table s) (size : s'.buff.length = s.buff.length)
    (listenfd : s'.listenfd = s.listenfd) (client : s'.client = s.client)
    (allset : s'.allset = s.allset) (maxfd : s'.maxfd = s.maxfd) (maxi : s'.maxi = s.maxi)
    (conn : ∀ fd, s'.conn fd = none ↔ s.conn fd = none) : Table s' where
  size := size.trans table.size
  listen := listenfd ▸ table.listen
  apart := by rw [listenfd, conn, table.apart]
  slots := by
    rw [client]
    exact table.slots.congr fun fd => not_congr (conn fd)
  bits fd := by rw [allset, listenfd, table.bits, ne_eq, ne_eq, conn]
  inside fd h := table.inside fd fun closed => h ((conn fd).mpr closed)
  below := by
    rw [allset, maxfd]
    exact table.below
  reached := by
    rw [client, maxi]
    exact table.reached
  bound := maxi ▸ table.bound

theorem goto (table : Table s) (pc : Pc) : Table { s with pc := pc } :=
  table.congr rfl rfl rfl rfl rfl rfl fun _ => Iff.rfl

theorem countReady (table : Table s) (next : Pc) : Table (s.countReady next) :=
  table.congr rfl rfl rfl rfl rfl rfl fun _ => Iff.rfl

theorem select (table : Table s) (r : SelectResult) : Table (s.select r) := by
  cases r with
  | failed => exact table.congr rfl rfl rfl rfl rfl rfl fun _ => Iff.rfl
  | ok readable => exact table.congr rfl rfl rfl rfl rfl rfl fun _ => Iff.rfl

/-- A slot that is not marked as free holds a descriptor. -/
theorem nonneg (table : Table s) (used : s.client i ≠ -1) : 0 ≤ s.client i :=
  (table.inside _ (table.slots.used i used)).1

theorem freeSlot_spec (table : Table s) (free : s.freeSlot = some i) :
    i < FD_SETSIZE ∧ s.client i = -1 := by
  obtain ⟨marked, mem⟩ := And.intro (List.find?_some free) (List.mem_of_find?_eq_some free)
  refine ⟨by simpa using (List.mem_range'_1.mp mem).2, ?_⟩
  by_contra used
  have := table.nonneg used
  have := of_decide_eq_true marked
  omega

/-- There are fewer descriptors with a bit for connections than there are slots. -/
theorem freeSlot_ne_none (table : Table s) : s.freeSlot ≠ none := by
  have few : ((Finset.Ico (0 : Int) FD_SETSIZE).erase s.listenfd).card < FD_SETSIZE := by
    rw [Finset.card_erase_of_mem (Finset.mem_Ico.mpr table.listen), Int.card_Ico]
    decide
  have inside (fd : Int) (h : s.conn fd ≠ none) :
      fd ∈ (Finset.Ico (0 : Int) FD_SETSIZE).erase s.listenfd := by
    refine Finset.mem_erase.mpr ⟨?_, Finset.mem_Ico.mpr (table.inside fd h)⟩
    rintro rfl
    exact h table.apart
  obtain ⟨i, low, free⟩ := table.slots.exists_free inside few
  intro full
  have used := List.find?_eq_none.mp full i (List.mem_range'_1.mpr ⟨i.zero_le, by omega⟩)
  rw [free] at used
  exact used rfl

theorem accept (table : Table s) (fresh : s.Fresh connfd) (inside : InSet connfd)
    (free : s.freeSlot = some i) : Table ((s.setClient i connfd).watch i connfd) := by
  obtain ⟨nonneg, notListen, unused⟩ := fresh
  obtain ⟨low, marked⟩ := table.freeSlot_spec free
  have opened (fd : Int) : Function.update s.conn connfd (some ⟨[], []⟩) fd ≠ none ↔
      fd = connfd ∨ s.conn fd ≠ none := by
    by_cases own : fd = connfd
    · simp [own]
    · simp [own]
  constructor
  case size => exact table.size
  case listen => exact table.listen
  case apart => exact (Function.update_of_ne (Ne.symm notListen) _ s.conn).trans table.apart
  case slots =>
    have put := table.slots.put marked (not_not_intro unused) (by omega : connfd ≠ -1)
    exact put.congr opened
  case bits =>
    intro fd
    have mem : fd ∈ insert connfd s.allset ↔ fd = connfd ∨ fd ∈ s.allset := Finset.mem_insert
    rw [table.bits, or_left_comm, ← opened fd] at mem
    exact mem
  case inside =>
    intro fd h
    obtain rfl | old := (opened fd).mp h
    · exact inside
    · exact table.inside fd old
  case below =>
    intro fd mem
    have known : fd = connfd ∨ fd ≤ s.maxfd :=
      (Finset.mem_insert.mp mem).imp_right (table.below fd)
    show fd ≤ if connfd > s.maxfd then connfd else s.maxfd
    split <;> omega
  case reached =>
    intro j used
    have known : j = i ∨ (j : Int) ≤ s.maxi := by
      by_cases own : j = i
      · exact .inl own
      · have same := Function.update_of_ne own connfd s.client
        exact .inr (table.reached j fun free => used (same.trans free))
    show (j : Int) ≤ if (i : Int) > s.maxi then (i : Int) else s.maxi
    split <;> omega
  case bound =>
    have := table.bound
    show (if (i : Int) > s.maxi then (i : Int) else s.maxi) < FD_SETSIZE
    split <;> omega

theorem ended (table : Table s) (used : s.client i ≠ -1) : Table (s.ended i) := by
  have opened (fd : Int) : Function.update s.conn (s.client i) none fd ≠ none ↔
      fd ≠ s.client i ∧ s.conn fd ≠ none := by
    by_cases own : fd = s.client i
    · simp [own]
    · simp [own]
  have notListen : s.listenfd ≠ s.client i := by
    intro same
    exact table.slots.used i used (same ▸ table.apart)
  constructor
  case size => exact table.size
  case listen => exact table.listen
  case apart => exact (Function.update_of_ne notListen _ s.conn).trans table.apart
  case slots => exact (table.slots.clear used).congr opened
  case bits =>
    intro fd
    have mem : fd ∈ s.allset.erase (s.client i) ↔ fd ≠ s.client i ∧ fd ∈ s.allset :=
      Finset.mem_erase
    show fd ∈ s.allset.erase (s.client i) ↔
      fd = s.listenfd ∨ Function.update s.conn (s.client i) none fd ≠ none
    rw [mem, opened, table.bits, and_or_left]
    apply or_congr_left
    constructor
    · exact And.right
    · rintro rfl
      exact ⟨notListen, rfl⟩
  case inside => exact fun fd h => table.inside fd ((opened fd).mp h).2
  case below => exact fun fd mem => table.below fd (Finset.mem_of_mem_erase mem)
  case reached =>
    intro j hj
    apply table.reached j
    by_cases own : j = i
    · rw [own]
      exact used
    · have same : (s.ended i).client j = s.client j := Function.update_of_ne own (-1) s.client
      rwa [same] at hj
  case bound => exact table.bound

theorem echoed {bytes : Block} {out : Sink} (table : Table s) (fits : bytes.length ≤ MAXLINE) :
    Table (s.echoed i bytes out) := by
  refine table.congr (length_fill (table.size ▸ fits)) rfl rfl rfl rfl rfl fun fd => ?_
  show Function.update s.conn (s.client i) _ fd = none ↔ _
  by_cases own : fd = s.client i
  · simp [own]
  · rw [Function.update_of_ne own]

end Table

end UnixProgramming.SelectServer
