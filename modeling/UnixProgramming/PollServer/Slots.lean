import UnixProgramming.PollServer.Loop

/-!
# The slot table of the poll server

Every connection that is open has one slot, and every other slot is marked as free. Slots
are given back in the middle of a scan and taken again by the next connection. `maxindex`
only grows.
-/

namespace UnixProgramming.PollServer

open Transition

/-- The slots for connections. -/
def IsSlot (i : Nat) : Prop := 1 ≤ i ∧ i < OPEN_MAX

/-- The table at any point of the loop. -/
structure Slots (s : State) : Prop where
  listen : (s.client 0).fd = s.listenfd
  bound : s.maxindex < OPEN_MAX
  descriptor : ∀ fd, s.conn fd ≠ none → 0 ≤ fd
  used : ∀ i, IsSlot i → (s.client i).fd ≠ -1 →
    s.conn (s.client i).fd ≠ none ∧ i ≤ s.maxindex ∧ (s.client i).events = POLLRDNORM
  placed : ∀ fd, s.conn fd ≠ none → ∃ i, IsSlot i ∧ (s.client i).fd = fd
  once : ∀ i j, IsSlot i → IsSlot j → (s.client i).fd ≠ -1 →
    (s.client i).fd = (s.client j).fd → i = j

theorem used_of_ready {p : Pollfd} (h : p.ready = true) : p.fd ≠ -1 := by
  rw [Pollfd.ready, Bool.and_eq_true] at h
  have nonneg : 0 ≤ p.fd := of_decide_eq_true h.1
  omega

namespace Slots

variable {s s' : State} {act : Action} {i : Nat}

theorem init (listenfd : Int) (client : Nat → Pollfd) (buf : CMemory.Block) :
    Slots (.init listenfd client buf) := by
  have free (i : Nat) (slot : IsSlot i) :
      ((State.init listenfd client buf).client i).fd = -1 := by
    have : i ≠ 0 := Nat.one_le_iff_ne_zero.mp slot.1
    simp [State.init, this]
  refine ⟨rfl, Nat.zero_lt_succ _, ?_, fun i slot used => absurd (free i slot) used, ?_,
    fun i _ slot _ used => absurd (free i slot) used⟩
  · simp [State.init]
  · simp [State.init]

/-- Only the descriptors, the events and the set of open connections matter. -/
theorem congr (slots : Slots s) (listenfd : s'.listenfd = s.listenfd)
    (maxindex : s'.maxindex = s.maxindex) (fd : ∀ i, (s'.client i).fd = (s.client i).fd)
    (events : ∀ i, (s'.client i).events = (s.client i).events)
    (conn : ∀ fd, s'.conn fd = none ↔ s.conn fd = none) : Slots s' where
  listen := by rw [fd, listenfd, slots.listen]
  bound := by rw [maxindex]; exact slots.bound
  descriptor sockfd h := slots.descriptor sockfd fun closed => h ((conn sockfd).mpr closed)
  used i slot h := by
    rw [fd] at h ⊢
    rw [maxindex, events, ne_eq, conn]
    exact slots.used i slot h
  placed sockfd h := by
    obtain ⟨i, slot, hi⟩ := slots.placed sockfd fun closed => h ((conn sockfd).mpr closed)
    exact ⟨i, slot, by rwa [fd]⟩
  once i j hi hj used same := by
    rw [fd] at used
    rw [fd, fd] at same
    exact slots.once i j hi hj used same

theorem poll (slots : Slots s) (r : PollResult) : Slots (s.poll r) := by
  cases r with
  | failed => exact slots.congr rfl rfl (fun _ => rfl) (fun _ => rfl) fun _ => Iff.rfl
  | ok nready revents =>
      refine slots.congr rfl rfl (fun i => ?_) (fun i => ?_) fun _ => Iff.rfl
      · simp only [State.poll]
        split <;> rfl
      · simp only [State.poll]
        split <;> rfl

/-- Slot `i` gets another descriptor. Its old connection is gone, and the new one is open. -/
theorem replace {p : Pollfd} (slots : Slots s) (slot : IsSlot i)
    (client : s'.client = Function.update s.client i p) (listenfd : s'.listenfd = s.listenfd)
    (bound : s'.maxindex < OPEN_MAX) (grown : s.maxindex ≤ s'.maxindex)
    (opened : ∀ fd, s'.conn fd ≠ none ↔
      fd ≠ (s.client i).fd ∧ s.conn fd ≠ none ∨ fd = p.fd ∧ p.fd ≠ -1)
    (own : p.fd ≠ -1 →
      0 ≤ p.fd ∧ s.conn p.fd = none ∧ i ≤ s'.maxindex ∧ p.events = POLLRDNORM) :
    Slots s' := by
  have self : s'.client i = p := by rw [client, Function.update_self]
  have others (j : Nat) (hj : j ≠ i) : s'.client j = s.client j := by
    rw [client, Function.update_of_ne hj]
  have apart (j : Nat) (hj : IsSlot j) (used : p.fd ≠ -1) : (s.client j).fd ≠ p.fd := by
    intro same
    apply (slots.used j hj (same ▸ used)).1
    rw [same, (own used).2.1]
  constructor
  case listen => rw [others 0 (Nat.ne_of_lt slot.1), listenfd, slots.listen]
  case bound => exact bound
  case descriptor =>
    intro fd h
    obtain ⟨-, old⟩ | ⟨rfl, used⟩ := (opened fd).mp h
    · exact slots.descriptor fd old
    · exact (own used).1
  case used =>
    intro j hj used
    by_cases hji : j = i
    · subst hji
      rw [self] at used ⊢
      exact ⟨(opened p.fd).mpr (.inr ⟨rfl, used⟩), (own used).2.2⟩
    · rw [others j hji] at used ⊢
      obtain ⟨old, le, events⟩ := slots.used j hj used
      have elsewhere : (s.client j).fd ≠ (s.client i).fd := by
        intro same
        exact hji (slots.once j i hj slot used same)
      exact ⟨(opened _).mpr (.inl ⟨elsewhere, old⟩), Nat.le_trans le grown, events⟩
  case placed =>
    intro fd h
    obtain ⟨elsewhere, old⟩ | ⟨rfl, -⟩ := (opened fd).mp h
    · obtain ⟨j, hj, at_⟩ := slots.placed fd old
      have hji : j ≠ i := by
        rintro rfl
        exact elsewhere at_.symm
      exact ⟨j, hj, by rw [others j hji, at_]⟩
    · exact ⟨i, slot, by rw [self]⟩
  case once =>
    intro j k hj hk used same
    by_cases hji : j = i
    · by_cases hki : k = i
      · rw [hji, hki]
      · subst hji
        rw [self] at used
        rw [self, others k hki] at same
        exact absurd same.symm (apart k hk used)
    · rw [others j hji] at used same
      by_cases hki : k = i
      · rw [hki, self] at same
        exact absurd same (apart j hj (same ▸ used))
      · rw [others k hki] at same
        exact slots.once j k hj hk used same

/-- The first free slot is taken, for a new connection or for the -1 of a failed `accept`. -/
theorem takeSlot (slots : Slots s) (connfd : Int) (free : s.freeSlot = some i)
    (listenfd : s'.listenfd = s.listenfd) (client : s'.client = (s.takeSlot i connfd).client)
    (maxindex : s'.maxindex = (s.takeSlot i connfd).maxindex)
    (opened : ∀ fd, s'.conn fd ≠ none ↔ s.conn fd ≠ none ∨ fd = connfd ∧ connfd ≠ -1)
    (own : connfd ≠ -1 → 0 ≤ connfd ∧ s.conn connfd = none) : Slots s' := by
  obtain ⟨low, high, negative, -⟩ := freeSlot_spec free
  have greatest : s'.maxindex = if s.maxindex < i then i else s.maxindex := maxindex
  have reached : i ≤ s'.maxindex := by
    rw [greatest]
    split <;> omega
  apply slots.replace ⟨low, high⟩ client listenfd
  case bound =>
    have := slots.bound
    rw [greatest]
    split <;> omega
  case grown =>
    rw [greatest]
    split <;> omega
  case opened =>
    intro fd
    rw [opened fd]
    apply or_congr_left
    constructor
    · intro old
      have := slots.descriptor fd old
      exact ⟨by omega, old⟩
    · intro old
      exact old.2
  case own =>
    intro used
    obtain ⟨nonneg, unused⟩ := own used
    exact ⟨nonneg, unused, reached, rfl⟩

theorem accept {connfd : Int} (slots : Slots s) (fresh : s.Fresh connfd)
    (free : s.freeSlot = some i) :
    Slots ((s.takeSlot i connfd).openConn connfd) := by
  obtain ⟨nonneg, -, unused⟩ := fresh
  apply slots.takeSlot connfd free
  case listenfd => rfl
  case client => rfl
  case maxindex => rfl
  case opened =>
    intro fd
    show Function.update s.conn connfd (some ⟨[], []⟩) fd ≠ none ↔ _
    by_cases new : fd = connfd
    · have used : connfd ≠ -1 := by omega
      simp [new, used]
    · simp [new]
  case own =>
    intro _
    exact ⟨nonneg, unused⟩

theorem acceptFails (slots : Slots s) (free : s.freeSlot = some i) :
    Slots (s.takeSlot i (-1)) := by
  apply slots.takeSlot (-1) free
  case listenfd => rfl
  case client => rfl
  case maxindex => rfl
  case opened =>
    intro fd
    exact (or_iff_left fun new => new.2 rfl).symm
  case own =>
    intro used
    exact absurd rfl used

/-- The slot of a closed connection is free again. -/
theorem close (slots : Slots s) (slot : IsSlot i) : Slots (s.close i) := by
  have client : (s.close i).client =
      Function.update s.client i { s.client i with fd := -1 } := rfl
  apply slots.replace slot client rfl slots.bound (Nat.le_refl s.maxindex)
  case opened =>
    intro fd
    by_cases same : fd = (s.client i).fd
    · simp [State.close, same]
    · simp [State.close, same]
  case own =>
    intro used
    exact absurd rfl used

theorem serve (slots : Slots s) (r : ReadResult) (slot : IsSlot i) : Slots (s.serve i r) := by
  cases r with
  | data bytes written =>
      refine slots.congr rfl rfl (fun _ => rfl) (fun _ => rfl) fun fd => ?_
      simp only [State.serve, State.echo]
      by_cases same : fd = (s.client i).fd
      · simp [same]
      · rw [Function.update_of_ne same]
  | eof => exact slots.close slot
  | econnreset => exact slots.close slot
  | error => exact slots

theorem goto (slots : Slots s) (pc : Pc) : Slots { s with pc := pc } :=
  slots.congr rfl rfl (fun _ => rfl) (fun _ => rfl) fun _ => Iff.rfl

theorem countReady (slots : Slots s) (next : Pc) : Slots (s.countReady next) :=
  slots.congr rfl rfl (fun _ => rfl) (fun _ => rfl) fun _ => Iff.rfl

end Slots

/-- The scan starts behind the slot of the listening socket. -/
structure Table (s : State) : Prop where
  slots : Slots s
  behind : ∀ i, s.pc = .scan i → 1 ≤ i

namespace Table

variable {s s' : State} {act : Action}

theorem init (listenfd : Int) (client : Nat → Pollfd) (buf : CMemory.Block) :
    Table (.init listenfd client buf) :=
  ⟨.init listenfd client buf, fun _ h => nomatch h⟩

theorem isSlot {i : Nat} (table : Table s) (at_ : s.pc = .scan i) (inside : i ≤ s.maxindex) :
    IsSlot i :=
  ⟨table.behind i at_, Nat.lt_of_le_of_lt inside table.slots.bound⟩

/-- `--nready` goes back to the loop head or goes on with `next`. -/
theorem countReady {i : Nat} (slots : Slots s) (next : 1 ≤ i) :
    Table (s.countReady (.scan i)) := by
  refine ⟨slots.countReady _, ?_⟩
  intro j h
  rw [(scan_of_countReady h).1]
  exact next

theorem step (table : Table s) (h : Step s act s') : Table s' := by
  cases effect_of_step h with
  | poll r at_ =>
      refine ⟨table.slots.poll r, ?_⟩
      intro i h
      cases r with
      | failed => cases h
      | ok nready revents => cases h
  | full connfd at_ full => exact ⟨table.slots.goto _, fun _ h => nomatch h⟩
  | fullFails at_ full => exact ⟨table.slots.goto _, fun _ h => nomatch h⟩
  | accept connfd i at_ fresh free =>
      refine ⟨table.slots.accept fresh free, ?_⟩
      intro j h
      exact Nat.le_of_eq (scan_of_countReady h).1.symm
  | acceptFails i at_ free =>
      refine ⟨table.slots.acceptFails free, ?_⟩
      intro j h
      exact Nat.le_of_eq (scan_of_countReady h).1.symm
  | noConnection at_ quiet =>
      refine ⟨table.slots.goto _, ?_⟩
      intro i h
      cases h
      exact Nat.le_refl 1
  | pass i at_ inside quiet =>
      refine ⟨table.slots.goto _, ?_⟩
      intro j h
      cases h
      exact Nat.le_add_left 1 i
  | serve i r at_ inside ready possible =>
      apply Table.countReady
      · exact table.slots.serve r (table.isSlot at_ inside)
      · exact Nat.le_add_left 1 i
  | endScan i at_ outside => exact ⟨table.slots.goto _, fun _ h => nomatch h⟩

end Table

/-- Every open connection has exactly one slot, and it lies below `maxindex`. All other slots
are free. -/
structure SlotTable (s : State) : Prop where
  listen : (s.client 0).fd = s.listenfd
  bound : s.maxindex < OPEN_MAX
  exactlyOne : ∀ fd, s.conn fd ≠ none →
    ∃ i, 1 ≤ i ∧ i ≤ s.maxindex ∧ ∀ j, IsSlot j → ((s.client j).fd = fd ↔ j = i)
  free : ∀ i, IsSlot i → s.conn (s.client i).fd = none → (s.client i).fd = -1
  reached : ∀ i, IsSlot i → (s.client i).fd ≠ -1 → i ≤ s.maxindex
  events : ∀ i, IsSlot i → (s.client i).fd ≠ -1 → (s.client i).events = POLLRDNORM

theorem Slots.slotTable {s : State} (slots : Slots s) : SlotTable s where
  listen := slots.listen
  bound := slots.bound
  exactlyOne fd h := by
    obtain ⟨i, slot, at_⟩ := slots.placed fd h
    have nonneg := slots.descriptor fd h
    have used : (s.client i).fd ≠ -1 := by omega
    refine ⟨i, slot.1, (slots.used i slot used).2.1, fun j hj => ⟨fun same => ?_, ?_⟩⟩
    · exact (slots.once i j slot hj used (at_.trans same.symm)).symm
    · rintro rfl
      exact at_
  free i slot closed := by
    by_contra used
    exact (slots.used i slot used).1 closed
  reached i slot used := (slots.used i slot used).2.1
  events i slot used := (slots.used i slot used).2.2

/-- At every point of the loop, its head included, for every array that `main` starts with and
all results of `poll`, `accept`, `read` and `write`. -/
theorem slot_table {listenfd : Int} {client : Nat → Pollfd} {buf : CMemory.Block} {s : State}
    (h : Reachable Step (.init listenfd client buf) s) :
    SlotTable s := by
  have table : Table s := h.invariant (.init listenfd client buf)
    fun _ _ _ table hstep => table.step hstep
  exact table.slots.slotTable

/-- Slot 1 is given back and taken again while slot 2 stays in use. -/
theorem slot_table_reused :
    ∃ s, Reachable Step (.init 3 (fun _ => ⟨0, 0, 0⟩) []) s ∧ s.pc = .poll ∧
      (s.client 1).fd = 5 ∧ (s.client 2).fd = 6 ∧ SlotTable s := by
  have run : ∃ s, Steps Step (.init 3 (fun _ => ⟨0, 0, 0⟩) [])
      [.poll (.ok 1 fun _ => POLLRDNORM), .accept 5, .poll (.ok 1 fun _ => POLLRDNORM), .accept 6,
        .poll (.ok 1 fun i => if i = 1 then POLLRDNORM else 0), .noConnection, .serve .eof,
        .poll (.ok 1 fun _ => POLLRDNORM), .accept 5] s ∧
      s.pc = .poll ∧ (s.client 1).fd = 5 ∧ (s.client 2).fd = 6 :=
    ⟨_, Steps.of_foldlM_option rfl, rfl, rfl, rfl⟩
  obtain ⟨s, steps, head, one, two⟩ := run
  exact ⟨s, ⟨_, steps⟩, head, one, two, slot_table ⟨_, steps⟩⟩

end UnixProgramming.PollServer
