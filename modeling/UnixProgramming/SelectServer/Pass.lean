import UnixProgramming.SelectServer.Table

/-!
# One pass of the select server

The scan stops when `nready` is used up. It comes to each descriptor that `select` has
reported once and to no other, because a connection that is accepted on the way is not
among them. Behind a `select` that has failed only the listening socket is served.
-/

namespace UnixProgramming.SelectServer

open CMemory Descriptor Transition Unp

/-- The scan stands in front of slot `i`, with `left` descriptors still to be served. -/
structure Scanning (s : State) (i : Nat) (left : Int) : Prop where
  table : Table s
  report : s.report = .ready s.rset
  nonneg : ∀ fd ∈ s.rset, 0 ≤ fd
  reported : ∀ fd ∈ s.served, fd ∈ s.rset
  nodup : s.served.Nodup
  count : left + s.served.length = s.rset.card
  behind : ∀ j, i ≤ j → s.client j ∉ s.served
  ahead : ∀ fd ∈ s.rset, fd ∈ s.served ∨ ∃ j, i ≤ j ∧ s.client j = fd

/-- What the pass has done, at the loop head. -/
def State.Finished (s : State) : Prop :=
  match s.report with
  | .none => s.served = []
  | .failed => s.served = [s.listenfd]
  | .ready fds => s.served.Nodup ∧ (∀ fd, fd ∈ s.served ↔ fd ∈ fds) ∧ s.nready = 0

/-- In front of the branch for the listening socket. -/
structure Listening (s : State) : Prop where
  table : Table s
  served : s.served = []
  result : s.report = .failed ∧ s.rset = s.allset ∧ s.nready = -1 ∨
    s.report = .ready s.rset ∧ s.rset ⊆ s.allset ∧ s.nready = s.rset.card

/-- What holds at each point of a pass. -/
def PassInv (s : State) : Prop :=
  match s.pc with
  | .select => Table s ∧ s.Finished
  | .listen => Listening s
  | .scan i => Scanning s i s.nready
  | .exited => False
  | .undefined => True

theorem PassInv.table {s : State} (inv : PassInv s) (defined : s.pc ≠ .undefined) : Table s := by
  rw [PassInv] at inv
  split at inv
  · exact inv.1
  · exact inv.table
  · exact inv.table
  · exact inv.elim
  · exact absurd ‹_› defined

theorem PassInv.init (start : Start) : PassInv (.init start) := ⟨.init start, rfl⟩

namespace Scanning

variable {s t : State} {i : Nat} {left : Int}

/-- A slot whose descriptor is not reported is passed over. -/
theorem pass (scan : Scanning s i left) (quiet : s.ready i = false) :
    Scanning s (i + 1) left where
  table := scan.table
  report := scan.report
  nonneg := scan.nonneg
  reported := scan.reported
  nodup := scan.nodup
  count := scan.count
  behind j later := scan.behind j (Nat.le_of_succ_le later)
  ahead fd mem := by
    obtain served | ⟨j, later, at_⟩ := scan.ahead fd mem
    · exact .inl served
    · refine .inr ⟨j, Nat.lt_of_le_of_ne later ?_, at_⟩
      rintro rfl
      have nonneg := scan.nonneg fd mem
      rw [State.ready, at_, Bool.and_eq_false_iff] at quiet
      obtain negative | unset := quiet
      · exact absurd nonneg (of_decide_eq_false negative)
      · exact absurd mem (of_decide_eq_false unset)

/-- The descriptor in slot `i` has been served. What stands in the slot may be cleared. -/
theorem serve (scan : Scanning s i left) (ready : s.ready i = true) (table : Table t)
    (rset : t.rset = s.rset) (report : t.report = s.report)
    (served : t.served = s.client i :: s.served)
    (client : ∀ j, i < j → t.client j = s.client j) : Scanning t (i + 1) (left - 1) := by
  rw [State.ready, Bool.and_eq_true] at ready
  have nonneg : 0 ≤ s.client i := of_decide_eq_true ready.1
  have mem : s.client i ∈ s.rset := of_decide_eq_true ready.2
  constructor
  case table => exact table
  case report => rw [report, rset, scan.report]
  case nonneg =>
    rw [rset]
    exact scan.nonneg
  case reported =>
    rw [served, rset]
    exact List.forall_mem_cons.mpr ⟨mem, scan.reported⟩
  case nodup =>
    rw [served]
    exact List.nodup_cons.mpr ⟨scan.behind i le_rfl, scan.nodup⟩
  case count =>
    have := scan.count
    rw [served, rset, List.length_cons]
    omega
  case behind =>
    intro j later
    rw [served, client j later, List.mem_cons, not_or]
    refine ⟨fun same => ?_, scan.behind j (Nat.le_of_succ_le later)⟩
    have own := scan.table.slots.once i j (by omega) same.symm
    omega
  case ahead =>
    rw [rset, served]
    intro fd mem
    obtain old | ⟨j, later, at_⟩ := scan.ahead fd mem
    · exact .inl (List.mem_cons_of_mem _ old)
    · obtain rfl | later := Nat.eq_or_lt_of_le later
      · exact .inl (at_ ▸ List.mem_cons_self)
      · exact .inr ⟨j, later, (client j later).trans at_⟩

/-- The pass is over when as many descriptors have been served as have been reported. -/
theorem finished (scan : Scanning s i left) (none : left ≤ 0) (served : t.served = s.served)
    (report : t.report = s.report) (nready : t.nready = left) : t.Finished := by
  have within : s.served.toFinset ⊆ s.rset := fun fd mem =>
    scan.reported fd (List.mem_toFinset.mp mem)
  have size : s.served.toFinset.card = s.served.length := List.toFinset_card_of_nodup scan.nodup
  have count := scan.count
  have most := Finset.card_le_card within
  have all : s.served.toFinset = s.rset := Finset.eq_of_subset_of_card_le within (by omega)
  rw [State.Finished, report, scan.report, served]
  refine ⟨scan.nodup, fun fd => ?_, by omega⟩
  rw [← all, List.mem_toFinset]

theorem countReady (scan : Scanning s i (s.nready - 1)) :
    PassInv (s.countReady (.scan i)) := by
  by_cases none : s.nready - 1 ≤ 0
  · have head : (s.countReady (.scan i)).pc = .select := if_pos none
    rw [PassInv, head]
    exact ⟨scan.table.countReady _, scan.finished none rfl rfl rfl⟩
  · have goes : (s.countReady (.scan i)).pc = .scan i := if_neg none
    rw [PassInv, goes]
    exact ⟨scan.table.countReady _, scan.report, scan.nonneg, scan.reported, scan.nodup,
      scan.count, scan.behind, scan.ahead⟩

/-- Behind the last slot nothing is left. -/
theorem endScan (scan : Scanning s i s.nready) (outside : s.maxi < i) :
    PassInv { s with pc := .select } := by
  refine ⟨scan.table.goto .select, scan.finished ?_ rfl rfl rfl⟩
  have all : s.rset ⊆ s.served.toFinset := by
    intro fd mem
    obtain served | ⟨j, later, at_⟩ := scan.ahead fd mem
    · exact List.mem_toFinset.mpr served
    · have nonneg := scan.nonneg fd mem
      have reached := scan.table.reached j (by omega)
      omega
  have most := Finset.card_le_card all
  rw [List.toFinset_card_of_nodup scan.nodup] at most
  have := scan.count
  omega

end Scanning

namespace Listening

variable {s : State} {i : Nat} {connfd : Int}

theorem select {s : State} (table : Table s) (r : SelectResult) : Listening (s.select r) := by
  cases r with
  | failed => exact ⟨table.select .failed, rfl, .inl ⟨rfl, rfl, rfl⟩⟩
  | ok readable =>
      exact ⟨table.select (.ok readable), rfl, .inr ⟨rfl, Finset.filter_subset _ _, rfl⟩⟩

/-- A reported descriptor is the listening socket, or it is that of a connection. -/
theorem mem_rset (listening : Listening s) {fd : Int} (mem : fd ∈ s.rset) :
    fd = s.listenfd ∨ s.conn fd ≠ none := by
  apply (listening.table.bits fd).mp
  obtain ⟨-, rset, -⟩ | ⟨-, rset, -⟩ := listening.result
  · exact rset ▸ mem
  · exact rset mem

theorem nonneg (listening : Listening s) {fd : Int} (mem : fd ∈ s.rset) : 0 ≤ fd := by
  obtain rfl | opened := listening.mem_rset mem
  · exact listening.table.listen.1
  · exact (listening.table.inside fd opened).1

theorem noConnection (listening : Listening s) (quiet : s.listenfd ∉ s.rset) :
    Scanning { s with pc := .scan 0 } 0 s.nready := by
  obtain ⟨-, rset, -⟩ | ⟨report, -, nready⟩ := listening.result
  · have bit := (listening.table.bits s.listenfd).mpr (.inl rfl)
    exact absurd (rset ▸ bit) quiet
  · constructor
    case table => exact listening.table.goto _
    case report => exact report
    case nonneg => exact fun fd mem => listening.nonneg mem
    case reported => exact listening.served ▸ List.forall_mem_nil _
    case nodup => exact listening.served ▸ List.nodup_nil
    case count =>
      rw [nready, listening.served]
      rfl
    case behind => exact fun j _ => listening.served ▸ List.not_mem_nil
    case ahead =>
      intro fd mem
      obtain rfl | opened := listening.mem_rset mem
      · exact absurd mem quiet
      · obtain ⟨j, at_⟩ := listening.table.slots.placed fd opened
        exact .inr ⟨j, Nat.zero_le j, at_⟩

/-- The new connection is not among the descriptors that are still to be served. -/
theorem accept (listening : Listening s) (ready : s.listenfd ∈ s.rset) (fresh : s.Fresh connfd)
    (inside : InSet connfd) (free : s.freeSlot = some i) :
    PassInv (((s.setClient i connfd).watch i connfd).countReady (.scan 0)) := by
  have table := listening.table.accept fresh inside free
  have served : ((s.setClient i connfd).watch i connfd).served = [s.listenfd] :=
    congrArg (s.listenfd :: ·) listening.served
  obtain ⟨report, -, nready⟩ | ⟨report, -, nready⟩ := listening.result
  · have last : s.nready - 1 ≤ 0 := by omega
    have head : (((s.setClient i connfd).watch i connfd).countReady (.scan 0)).pc = .select :=
      if_pos last
    rw [PassInv, head]
    refine ⟨table.countReady _, ?_⟩
    have kept : (((s.setClient i connfd).watch i connfd).countReady (.scan 0)).report =
        .failed := report
    rw [State.Finished, kept]
    exact served
  · apply Scanning.countReady
    have marked := (listening.table.freeSlot_spec free).2
    constructor
    case table => exact table
    case report => exact report
    case nonneg => exact fun fd mem => listening.nonneg mem
    case reported =>
      rw [served]
      exact List.forall_mem_singleton.mpr ready
    case nodup =>
      rw [served]
      exact List.nodup_singleton _
    case count =>
      have : s.nready - 1 + 1 = s.rset.card := by omega
      rw [served]
      exact this
    case behind =>
      intro j _
      rw [served, List.mem_singleton]
      intro same
      have nonneg := listening.table.listen.1
      have used := table.slots.used j (by omega)
      rw [same] at used
      exact used table.apart
    case ahead =>
      intro fd mem
      rw [served, List.mem_singleton]
      obtain rfl | opened := listening.mem_rset mem
      · exact .inl rfl
      · obtain ⟨j, rfl⟩ := listening.table.slots.placed fd opened
        have taken : j ≠ i := by
          rintro rfl
          exact listening.table.slots.marker (marked ▸ opened)
        have same := Function.update_of_ne taken connfd s.client
        exact .inr ⟨j, Nat.zero_le j, same⟩

end Listening

theorem PassInv.step {s s' : State} {act : Action} (inv : PassInv s) (h : Step s act s') :
    PassInv s' := by
  have defined : s.pc ≠ .undefined := by
    intro gone
    cases act <;> simp [Step, State.step, gone] at h
  have table := inv.table defined
  cases effect_of_step table.size h with
  | select r at_ =>
      have listening := Listening.select table r
      cases r <;> exact listening
  | full at_ full => exact absurd full table.freeSlot_ne_none
  | fullFails at_ full => exact absurd full table.freeSlot_ne_none
  | accept at_ ready fresh inside free =>
      rw [PassInv, at_] at inv
      exact Listening.accept inv ready fresh inside free
  | noBit outside lost =>
      rw [PassInv, lost.undefined]
      trivial
  | noBitFails lost =>
      rw [PassInv, lost.undefined]
      trivial
  | noConnection at_ quiet =>
      rw [PassInv, at_] at inv
      exact Listening.noConnection inv quiet
  | @pass i at_ inside quiet =>
      rw [PassInv, at_] at inv
      have next := Scanning.pass inv quiet
      exact ⟨next.table.goto _, next.report, next.nonneg, next.reported, next.nodup, next.count,
        next.behind, next.ahead⟩
  | @echo i bytes out at_ inside ready some fits ends =>
      rw [PassInv, at_] at inv
      exact (Scanning.serve inv ready (table.echoed fits) rfl rfl rfl fun _ _ => rfl).countReady
  | overread ready some endless => trivial
  | @ended i at_ inside ready =>
      rw [PassInv, at_] at inv
      have nonneg : 0 ≤ s.client i := by
        rw [State.ready, Bool.and_eq_true] at ready
        exact of_decide_eq_true ready.1
      refine (Scanning.serve inv ready (table.ended (by omega)) rfl rfl rfl
        fun j later => ?_).countReady
      exact Function.update_of_ne (Nat.ne_of_gt later) (-1) s.client
  | overrun lost =>
      rw [PassInv, lost.undefined]
      trivial
  | @endScan i at_ outside =>
      rw [PassInv, at_] at inv
      exact Scanning.endScan inv outside

theorem passInv {start : Start} {s : State} (h : Reachable Step (.init start) s) : PassInv s :=
  h.invariant (.init start) fun _ _ _ inv hstep => inv.step hstep

/-- A listening socket on descriptor 3. -/
def start3 : Start := ⟨3, List.replicate MAXLINE 0, by decide, List.length_replicate⟩

/-- At each point of each run that is still defined, `select` looks at the listening socket and
at every open connection, and at nothing else. Each connection has one slot that the scan comes
to. -/
theorem watched {start : Start} {s : State} (h : Reachable Step (.init start) s)
    (defined : s.pc ≠ .undefined) :
    (∀ fd, fd ∈ s.allset ↔ fd = s.listenfd ∨ s.conn fd ≠ none) ∧
    (∀ fd ∈ s.allset, InSet fd ∧ fd < s.maxfd + 1) ∧
    ∀ fd, s.conn fd ≠ none → ∃ i : Nat, (i : Int) ≤ s.maxi ∧ ∀ j, s.client j = fd ↔ j = i := by
  have table := (passInv h).table defined
  refine ⟨table.bits, fun fd mem => ⟨?_, Int.lt_add_one_of_le (table.below fd mem)⟩, ?_⟩
  · obtain rfl | opened := (table.bits fd).mp mem
    · exact table.listen
    · exact table.inside fd opened
  · intro fd opened
    obtain ⟨i, rfl⟩ := table.slots.placed fd opened
    have used : s.client i ≠ -1 := by
      have := (table.inside _ opened).1
      omega
    refine ⟨i, table.reached i used, fun j => ⟨fun same => ?_, fun same => same ▸ rfl⟩⟩
    exact (table.slots.once i j used same.symm).symm

/-- Slot 0 is given back and taken by another descriptor, in front of the one in slot 1. -/
theorem watched_reused :
    ∃ s, Reachable Step (.init start3) s ∧ s.client 0 = 7 ∧ s.client 1 = 6 ∧
      (6 ∈ s.allset ↔ 6 = s.listenfd ∨ s.conn 6 ≠ none) := by
  have run : ∃ s, Steps Step (.init start3)
      [.select (.ok {3}), .accept 5, .select (.ok {3}), .accept 6, .select (.ok {5}),
        .noConnection, .serve .eof, .select (.ok {3}), .accept 7] s ∧ s.pc = .select ∧
      s.client 0 = 7 ∧ s.client 1 = 6 :=
    ⟨_, Steps.of_foldlM_option rfl, rfl, rfl, rfl⟩
  obtain ⟨s, steps, head, zero, one⟩ := run
  exact ⟨s, ⟨_, steps⟩, zero, one, (watched ⟨_, steps⟩ (by simp [head])).1 6⟩

/-- At each loop head behind a `select` that has succeeded, `accept` or `read` has been called
once on each descriptor that it has reported and on no other, and nothing is left of `nready`.
Behind one that has failed, `accept` has been called and nothing else. -/
theorem served_once {start : Start} {s : State} (h : Reachable Step (.init start) s)
    (head : s.pc = .select) :
    (∀ fds, s.report = .ready fds →
      s.served.Nodup ∧ (∀ fd, fd ∈ s.served ↔ fd ∈ fds) ∧ s.nready = 0) ∧
    (s.report = .failed → s.served = [s.listenfd]) := by
  have inv := passInv h
  rw [PassInv, head] at inv
  have finished := inv.2
  constructor
  · intro fds report
    rw [State.Finished, report] at finished
    exact finished
  · intro report
    rw [State.Finished, report] at finished
    exact finished

/-- Three descriptors are reported at once, and both connections end. -/
theorem served_once_three :
    ∃ s, Reachable Step (.init start3) s ∧ s.report = .ready {6, 5, 3} ∧ s.served = [6, 5, 3] ∧
      s.client 2 = 7 ∧ s.nready = 0 := by
  have run : ∃ s, Steps Step (.init start3)
      [.select (.ok {3}), .accept 5, .select (.ok {3}), .accept 6, .select (.ok {3, 5, 6}),
        .accept 7, .serve .eof, .serve .eof] s ∧ s.pc = .select ∧
      s.report = .ready {6, 5, 3} ∧ s.served = [6, 5, 3] ∧ s.client 2 = 7 :=
    ⟨_, Steps.of_foldlM_option rfl, rfl, rfl, rfl, rfl⟩
  obtain ⟨s, steps, head, report, served, last⟩ := run
  have once := (served_once ⟨_, steps⟩ head).1 _ report
  exact ⟨s, ⟨_, steps⟩, report, served, last, once.2.2⟩

end UnixProgramming.SelectServer
