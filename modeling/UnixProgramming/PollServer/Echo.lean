import UnixProgramming.PollServer.Slots
import Mathlib.Data.List.TakeDrop

/-!
# What the poll server sends back

All connections share one buffer, and each echo is one `write`, whose value the scan does not
look at. What a connection gets is a part of what it has sent, in order. It is all of it if
and only if every `write` takes all its bytes. The loop of `Writen`, which `str_echo` calls,
sends the rest.
-/

namespace UnixProgramming.PollServer

open CMemory Transition

/-- A connection that is open or has been closed. -/
def State.Serves (s : State) (tr : Traffic) : Prop :=
  (∃ fd, s.conn fd = some tr) ∨ tr ∈ s.closed

/-- The connections other than the one on `fd`. -/
def State.ServesBeside (s : State) (fd : Int) (tr : Traffic) : Prop :=
  (∃ other, other ≠ fd ∧ s.conn other = some tr) ∨ tr ∈ s.closed

/-- The bytes of one `read`, and what one `write` of them sends. -/
def Traffic.echo (tr : Traffic) (bytes : Block) (written : Option Nat) : Traffic :=
  ⟨tr.got ++ bytes, tr.sent ++ bytes.take (written.getD 0)⟩

/-- Every `write` behind a `read` takes all bytes. -/
def Action.WritesAll : Action → Prop
  | .serve (.data bytes written) => written = some bytes.length
  | _ => True

section Serves

variable {s : State} {fd : Int} {tr new : Traffic}

theorem serves_iff (h : s.conn fd = some tr) :
    s.Serves new ↔ new = tr ∨ s.ServesBeside fd new := by
  constructor
  · rintro (⟨other, at_⟩ | gone)
    · by_cases same : other = fd
      · rw [same, h] at at_
        exact .inl (Option.some.inj at_).symm
      · exact .inr (.inl ⟨other, same, at_⟩)
    · exact .inr (.inr gone)
  · rintro (rfl | ⟨other, -, at_⟩ | gone)
    · exact .inl ⟨fd, h⟩
    · exact .inl ⟨other, at_⟩
    · exact .inr gone

theorem servesBeside_congr {s' : State} (conn : ∀ other, other ≠ fd → s'.conn other = s.conn other)
    (closed : s'.closed = s.closed) : s'.ServesBeside fd new ↔ s.ServesBeside fd new := by
  apply or_congr
  · apply exists_congr
    intro other
    apply and_congr_right
    intro apart
    rw [conn other apart]
  · rw [closed]

/-- Nothing of a connection is lost when it is closed. -/
theorem serves_close {i : Nat} (h : s.conn (s.client i).fd = some tr) :
    (s.close i).Serves new ↔ s.Serves new := by
  have closed : (s.close i).closed = tr :: s.closed := by
    simp [State.close, h]
  have beside (other : Int) : (s.close i).conn other = some new ↔
      other ≠ (s.client i).fd ∧ s.conn other = some new := by
    by_cases same : other = (s.client i).fd
    · simp [State.close, same]
    · simp [State.close, same]
  rw [serves_iff h, State.ServesBeside, State.Serves, closed, List.mem_cons]
  simp only [beside]
  exact or_left_comm

theorem serves_echo {i : Nat} {bytes : Block} {written : Option Nat}
    (h : s.conn (s.client i).fd = some tr) : (s.echo i bytes written).Serves new ↔
      new = tr.echo bytes written ∨ s.ServesBeside (s.client i).fd new := by
  have at_ : (s.echo i bytes written).conn (s.client i).fd = some (tr.echo bytes written) := by
    simp [State.echo, h, Traffic.echo, take_fill]
  rw [serves_iff at_]
  apply or_congr_right
  apply servesBeside_congr
  · intro other apart
    exact Function.update_of_ne apart _ _
  · rfl

theorem serves_accept {connfd : Int} {i : Nat} (fresh : s.Fresh connfd) :
    ((s.takeSlot i connfd).openConn connfd).Serves new ↔ new = ⟨[], []⟩ ∨ s.Serves new := by
  have at_ : ((s.takeSlot i connfd).openConn connfd).conn connfd = some ⟨[], []⟩ :=
    Function.update_self connfd _ s.conn
  rw [serves_iff at_, servesBeside_congr (s := s)]
  · apply or_congr_right
    constructor
    · rintro (⟨other, -, opened⟩ | gone)
      · exact .inl ⟨other, opened⟩
      · exact .inr gone
    · rintro (⟨other, opened⟩ | gone)
      · refine .inl ⟨other, ?_, opened⟩
        rintro rfl
        rw [fresh.2.2] at opened
        cases opened
      · exact .inr gone
  · intro other apart
    exact Function.update_of_ne apart _ s.conn
  · rfl

end Serves

section Traffic

variable {tr : Traffic} {bytes : Block} {written : Option Nat}

theorem take_eq_self_iff (possible : (ReadResult.data bytes written).Possible) :
    bytes.take (written.getD 0) = bytes ↔ written = some bytes.length := by
  obtain ⟨nonempty, -, bound⟩ := possible
  rw [List.take_eq_self_iff]
  cases written with
  | none => simpa using List.length_pos_iff.mp nonempty
  | some count =>
      have := bound count rfl
      show bytes.length ≤ count ↔ some count = some bytes.length
      rw [Option.some.injEq]
      omega

/-- A byte that one `write` leaves out never comes later. -/
theorem echo_complete_iff (part : tr.sent.Sublist tr.got)
    (possible : (ReadResult.data bytes written).Possible) :
    (tr.echo bytes written).sent = (tr.echo bytes written).got ↔
      tr.sent = tr.got ∧ written = some bytes.length := by
  rw [← take_eq_self_iff possible]
  constructor
  · intro same
    have lengths : tr.sent.length = tr.got.length := by
      have total := congrArg List.length same
      have behind := part.length_le
      simp only [Traffic.echo, List.length_append, List.length_take] at total
      omega
    exact List.append_inj same lengths
  · rintro ⟨sent, all⟩
    simp only [Traffic.echo, sent, all]

theorem echo_sublist (part : tr.sent.Sublist tr.got) :
    (tr.echo bytes written).sent.Sublist (tr.echo bytes written).got :=
  part.append (List.take_sublist _ bytes)

end Traffic

variable {s s' : State} {act : Action}

/-- What one step does to the connections. -/
inductive Change (s : State) : Action → State → Prop
  | same {act : Action} {s' : State} (all : act.WritesAll)
      (serves : ∀ new, s'.Serves new ↔ s.Serves new) : Change s act s'
  | opened {act : Action} {s' : State} (all : act.WritesAll)
      (serves : ∀ new, s'.Serves new ↔ new = ⟨[], []⟩ ∨ s.Serves new) : Change s act s'
  | echoed {s' : State} {fd : Int} {tr : Traffic} {bytes : Block} {written : Option Nat}
      (possible : (ReadResult.data bytes written).Possible) (at_ : s.conn fd = some tr)
      (serves : ∀ new, s'.Serves new ↔ new = tr.echo bytes written ∨ s.ServesBeside fd new) :
      Change s (.serve (.data bytes written)) s'

theorem change_of_step (table : Table s) (h : Step s act s') : Change s act s' := by
  cases effect_of_step h with
  | poll r at_ => cases r <;> exact .same trivial fun _ => Iff.rfl
  | full connfd at_ full => exact .same trivial fun _ => Iff.rfl
  | fullFails at_ full => exact .same trivial fun _ => Iff.rfl
  | accept connfd i at_ fresh free => exact .opened trivial fun _ => serves_accept fresh
  | acceptFails i at_ free => exact .same trivial fun _ => Iff.rfl
  | noConnection at_ quiet => exact .same trivial fun _ => Iff.rfl
  | pass i at_ inside quiet => exact .same trivial fun _ => Iff.rfl
  | serve i r at_ inside ready possible =>
      have slot := table.isSlot at_ inside
      have used := (table.slots.used i slot (used_of_ready ready)).1
      obtain ⟨tr, opened⟩ := Option.ne_none_iff_exists'.mp used
      cases r with
      | data bytes written => exact .echoed possible opened fun _ => serves_echo opened
      | eof => exact .same trivial fun _ => serves_close opened
      | econnreset => exact .same trivial fun _ => serves_close opened
      | error => exact .same trivial fun _ => Iff.rfl
  | endScan i at_ outside => exact .same trivial fun _ => Iff.rfl

/-- Nothing is sent that has not been read, and nothing out of order. -/
structure EchoInv (s : State) : Prop where
  table : Table s
  part : ∀ tr, s.Serves tr → tr.sent.Sublist tr.got

theorem EchoInv.init (listenfd : Int) (client : Nat → Pollfd) (buf : Block) :
    EchoInv (.init listenfd client buf) := by
  refine ⟨.init listenfd client buf, fun tr serves => ?_⟩
  obtain ⟨fd, opened⟩ | gone := serves
  · cases opened
  · cases gone

theorem EchoInv.step (inv : EchoInv s) (h : Step s act s') : EchoInv s' := by
  refine ⟨inv.table.step h, fun new new_serves => ?_⟩
  cases change_of_step inv.table h with
  | same all serves => exact inv.part new ((serves new).mp new_serves)
  | opened all serves =>
      obtain rfl | old := (serves new).mp new_serves
      · exact List.Sublist.refl []
      · exact inv.part new old
  | @echoed _ fd tr bytes written possible at_ serves =>
      obtain rfl | beside := (serves new).mp new_serves
      · exact echo_sublist (inv.part tr (.inl ⟨fd, at_⟩))
      · exact inv.part new ((serves_iff at_).mpr (.inr beside))

/-- Each connection has been sent all that has been read from it. -/
def State.Echoes (s : State) : Prop := ∀ tr, s.Serves tr → tr.sent = tr.got

theorem echoes_step (inv : EchoInv s) (h : Step s act s') :
    s'.Echoes ↔ s.Echoes ∧ act.WritesAll := by
  cases change_of_step inv.table h with
  | same all serves =>
      rw [and_iff_left all]
      exact forall_congr' fun new => imp_congr_left (serves new)
  | opened all serves =>
      rw [and_iff_left all]
      constructor
      · intro echoes tr old
        exact echoes tr ((serves tr).mpr (.inr old))
      · intro echoes tr new_serves
        obtain rfl | old := (serves tr).mp new_serves
        · rfl
        · exact echoes tr old
  | @echoed _ fd tr bytes written possible at_ serves =>
      have complete := echo_complete_iff (inv.part tr (.inl ⟨fd, at_⟩)) possible
      constructor
      · intro echoes
        have own := complete.mp (echoes _ ((serves _).mpr (.inl rfl)))
        refine ⟨fun old old_serves => ?_, own.2⟩
        obtain rfl | beside := (serves_iff at_).mp old_serves
        · exact own.1
        · exact echoes old ((serves old).mpr (.inr beside))
      · rintro ⟨echoes, all⟩ new new_serves
        obtain rfl | beside := (serves new).mp new_serves
        · exact complete.mpr ⟨echoes tr (.inl ⟨fd, at_⟩), all⟩
        · exact echoes new ((serves_iff at_).mpr (.inr beside))

theorem echoes_steps {as : List Action} (inv : EchoInv s) (run : Steps Step s as s') :
    s'.Echoes ↔ s.Echoes ∧ ∀ act ∈ as, act.WritesAll := by
  induction run with
  | nil s => simp
  | cons first rest ih =>
      rw [ih (inv.step first), echoes_step inv first, List.forall_mem_cons, and_assoc]

/-- At each point of each run, every connection, open or closed, has been sent exactly what
has been read from it, if and only if each `write` of the run has taken all its bytes. -/
theorem echoes_iff {listenfd : Int} {client : Nat → Pollfd} {buf : Block} {as : List Action}
    (run : Steps Step (.init listenfd client buf) as s) :
    s.Echoes ↔
      ∀ bytes written, .serve (.data bytes written) ∈ as → written = some bytes.length := by
  have inv := EchoInv.init listenfd client buf
  have start : (State.init listenfd client buf).Echoes := by
    intro tr serves
    obtain ⟨fd, opened⟩ | gone := serves
    · cases opened
    · cases gone
  rw [echoes_steps inv run, and_iff_right start]
  constructor
  · intro all bytes written mem
    exact all _ mem
  · intro all act mem
    match act, mem with
    | .serve (.data bytes written), mem => exact all bytes written mem
    | .serve .eof, _ | .serve .econnreset, _ | .serve .error, _ => trivial
    | .poll _, _ | .accept _, _ | .acceptFails, _ | .noConnection, _ | .pass, _ | .endScan, _ =>
        trivial

/-- Two connections in turn, each `write` complete. -/
theorem echoes_two :
    ∃ s, Reachable Step (.init 3 (fun _ => ⟨0, 0, 0⟩) []) s ∧ s.pc = .poll ∧
      s.conn 5 = some ⟨[104, 105], [104, 105]⟩ ∧ s.conn 6 = some ⟨[111], [111]⟩ ∧
      s.Echoes := by
  have run : ∃ s, Steps Step (.init 3 (fun _ => ⟨0, 0, 0⟩) [])
      [.poll (.ok 1 fun _ => POLLRDNORM), .accept 5, .poll (.ok 1 fun _ => POLLRDNORM), .accept 6,
        .poll (.ok 2 fun i => if i = 0 then 0 else POLLRDNORM), .noConnection,
        .serve (.data [104, 105] (some 2)), .serve (.data [111] (some 1))] s ∧
      s.pc = .poll ∧ s.conn 5 = some ⟨[104, 105], [104, 105]⟩ ∧
      s.conn 6 = some ⟨[111], [111]⟩ :=
    ⟨_, Steps.of_foldlM_option rfl, rfl, rfl, rfl⟩
  obtain ⟨s, steps, head, five, six⟩ := run
  refine ⟨s, ⟨_, steps⟩, head, five, six, (echoes_iff steps).mpr fun bytes written mem => ?_⟩
  simp at mem
  obtain ⟨rfl, rfl⟩ | ⟨rfl, rfl⟩ := mem
  · rfl
  · rfl

/-- A `write` takes one byte of two, and the loop goes on. -/
theorem short_write_drops :
    ∃ s, Reachable Step (.init 3 (fun _ => ⟨0, 0, 0⟩) []) s ∧ s.pc = .poll ∧
      s.conn 5 = some ⟨[104, 105], [104]⟩ ∧ ¬ s.Echoes := by
  have run : ∃ s, Steps Step (.init 3 (fun _ => ⟨0, 0, 0⟩) [])
      [.poll (.ok 1 fun _ => POLLRDNORM), .accept 5,
        .poll (.ok 1 fun i => if i = 0 then 0 else POLLRDNORM), .noConnection,
        .serve (.data [104, 105] (some 1))] s ∧
      s.pc = .poll ∧ s.conn 5 = some ⟨[104, 105], [104]⟩ :=
    ⟨_, Steps.of_foldlM_option rfl, rfl, rfl⟩
  obtain ⟨s, steps, head, five⟩ := run
  refine ⟨s, ⟨_, steps⟩, head, five, fun echoes => ?_⟩
  cases echoes _ (.inl ⟨5, five⟩)

end UnixProgramming.PollServer
