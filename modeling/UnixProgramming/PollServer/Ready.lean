import UnixProgramming.PollServer.Slots
import Mathlib.Data.Nat.Find

/-!
# Which slots the scan of the poll server reads

The scan looks at the `revents` of every slot up to `maxindex`. Behind an `accept` the slot of
the new connection is among them, which this iteration's `poll` has not filled in. Behind a
`poll` that failed no slot is. The reads stay on reported descriptors if the scan comes to no
such slot, or comes to it without the bits.
-/

namespace UnixProgramming.PollServer

open Transition

namespace State

/-- The slots from `i` on and before `k` that the scan reads. -/
def readyCount (s : State) (i k : Nat) : Nat :=
  (List.range' i (k - i)).countP fun j => (s.client j).ready

/-- `poll` has reported the descriptor of slot `i` as readable or in error. -/
def Seen (s : State) (i : Nat) : Prop :=
  ∃ revents, ((s.client i).fd, revents) ∈ s.reported ∧
    revents &&& (POLLRDNORM ||| POLLERR) ≠ 0#16

/-- The read that comes next, if there is one, is of a reported descriptor. -/
def ReadsSeen (s : State) : Prop :=
  ∀ i, s.pc = .scan i → i ≤ s.maxindex → (s.client i).ready = true → s.Seen i

/-- `nready` is used up before the scan that stands at `i` comes to slot `k`. -/
def Stops (s : State) (i k : Nat) : Prop := max 1 s.nready ≤ s.readyCount i k

/-- A new connection is put into a slot without the bits, or into one that the scan does not
come to. A `poll` fails only where none of the values in the table is read again. -/
def Covered (s : State) : Action → Prop
  | .accept _ => ∀ i, s.freeSlot = some i → s.nready ≤ 1 ∨
      (s.client i).revents &&& (POLLRDNORM ||| POLLERR) = 0#16 ∨
      s.nready - 1 ≤ s.readyCount 1 i
  | .poll .failed => s.connecting = true ∨
      ∀ i, 1 ≤ i → i ≤ s.maxindex → (s.client i).ready = false
  | _ => True

/-- The report of the last `poll` is what stands in the table. -/
def Reports (s : State) : Prop :=
  s.reported = (List.range (s.maxindex + 1)).map fun i => ((s.client i).fd, (s.client i).revents)

end State

open State

variable {s s' : State} {act : Action}

theorem ready_iff {p : Pollfd} :
    p.ready = true ↔ 0 ≤ p.fd ∧ p.revents &&& (POLLRDNORM ||| POLLERR) ≠ 0#16 := by
  simp [Pollfd.ready]

theorem readyCount_succ {i k : Nat} (h : i < k) :
    s.readyCount i k = (s.client i).ready.toNat + s.readyCount (i + 1) k := by
  have split : k - i = k - (i + 1) + 1 := by omega
  rw [readyCount, split, List.range'_succ, List.countP_cons, readyCount]
  cases (s.client i).ready <;> simp [Nat.add_comm]

theorem readyCount_congr {i k : Nat}
    (same : ∀ j, i ≤ j → j < k → (s'.client j).ready = (s.client j).ready) :
    s'.readyCount i k = s.readyCount i k := by
  apply List.countP_congr
  intro j mem
  obtain ⟨low, high⟩ := List.mem_range'_1.mp mem
  rw [same j low (by omega)]

theorem readyCount_eq_zero {i k : Nat} (h : ∀ j, i ≤ j → j < k → (s.client j).ready = false) :
    s.readyCount i k = 0 := by
  apply List.countP_eq_zero.mpr
  intro j mem
  obtain ⟨low, high⟩ := List.mem_range'_1.mp mem
  simp [h j low (by omega)]

theorem State.Reports.seen {i : Nat} (h : s.Reports) (inside : i ≤ s.maxindex)
    (ready : (s.client i).ready = true) : s.Seen i := by
  refine ⟨(s.client i).revents, ?_, (ready_iff.mp ready).2⟩
  rw [h]
  exact List.mem_map.mpr ⟨i, List.mem_range.mpr (Nat.lt_succ_of_le inside), rfl⟩

theorem State.Seen.congr {k : Nat} (seen : s.Seen k) (client : s'.client k = s.client k)
    (reported : s'.reported = s.reported) : s'.Seen k := by
  rw [Seen, client, reported]
  exact seen

theorem reports_of_ok (s : State) (nready : Int) (revents : Nat → Events) :
    (s.poll (.ok nready revents)).Reports := by
  apply List.map_congr_left
  intro i mem
  have inside : i ≤ s.maxindex := Nat.le_of_lt_succ (List.mem_range.mp mem)
  simp [State.poll, inside]

/-- The slots before the one that is taken are those that were there. -/
theorem readyCount_takeSlot (s : State) (i : Nat) (connfd : Int) :
    (s.takeSlot i connfd).readyCount 1 i = s.readyCount 1 i := by
  apply readyCount_congr
  intro j _ high
  have same : (s.takeSlot i connfd).client j = s.client j :=
    Function.update_of_ne (Nat.ne_of_lt high) _ s.client
  rw [same]

/-- What holds at each point of an iteration. A scan comes to no slot that is not seen. -/
structure ScanInv (s : State) : Prop where
  table : Table s
  listening : s.pc = .listen →
    s.Reports ∨ s.reported = [] ∧ s.nready = -1 ∧ s.Covered (.poll .failed)
  scanning : ∀ i, s.pc = .scan i → ∀ k, i ≤ k → k ≤ s.maxindex →
    (s.client k).ready = true → s.Seen k ∨ s.Stops i k

namespace ScanInv

theorem readsSeen (inv : ScanInv s) : s.ReadsSeen := by
  intro i at_ inside ready
  obtain seen | stops := inv.scanning i at_ i (Nat.le_refl i) inside ready
  · exact seen
  · have none : s.readyCount i i = 0 := readyCount_eq_zero fun j low high => by omega
    rw [Stops, none] at stops
    omega

/-- Behind a failing `poll` there is nothing left of `nready`. -/
theorem reports (inv : ScanInv s) (at_ : s.pc = .listen) (more : 1 < s.nready) : s.Reports := by
  obtain reports | ⟨-, failed, -⟩ := inv.listening at_
  · exact reports
  · omega

/-- At the loop head and behind the exit there is only the table to keep. -/
theorem of_table (table : Table s) (listen : s.pc ≠ .listen) (scan : ∀ i, s.pc ≠ .scan i) :
    ScanInv s :=
  ⟨table, fun h => absurd h listen, fun i h => absurd h (scan i)⟩

theorem init (listenfd : Int) (client : Nat → Pollfd) (buf : CMemory.Block) :
    ScanInv (.init listenfd client buf) :=
  of_table (.init listenfd client buf) nofun nofun

/-- Slot 0 and the slots before the free one are in use, so no slot in between is beyond
`maxindex`. -/
theorem freeSlot_le {i : Nat} (slots : Slots s) (free : s.freeSlot = some i) :
    i ≤ s.maxindex + 1 := by
  obtain ⟨low, high, -, before⟩ := freeSlot_spec free
  by_contra far
  have used := before (i - 1) (by omega) (by omega)
  have reached := (slots.used (i - 1) ⟨by omega, by omega⟩ (by omega)).2.1
  omega

theorem poll {r : PollResult} (table : Table (s.poll r)) (covered : s.Covered (.poll r)) :
    ScanInv (s.poll r) := by
  cases r with
  | failed =>
      refine ⟨table, fun _ => .inr ⟨rfl, rfl, covered⟩, fun i h => ?_⟩
      cases h
  | ok nready revents =>
      refine ⟨table, fun _ => .inl (reports_of_ok s nready revents), fun i h => ?_⟩
      cases h

/-- Only the slot that is taken may lie beyond what `poll` has filled in. -/
theorem takeSlot {connfd : Int} {i : Nat} (inv : ScanInv s) (at_ : s.pc = .listen)
    (free : s.freeSlot = some i) (client : s'.client = (s.takeSlot i connfd).client)
    (maxindex : s'.maxindex = (s.takeSlot i connfd).maxindex) (nready : s'.nready = s.nready - 1)
    (pc : s'.pc = (s.takeSlot i connfd).pc) (reported : s'.reported = s.reported)
    (table : Table s') (covered : 0 ≤ connfd → s.Covered (.accept connfd)) : ScanInv s' := by
  constructor
  case table => exact table
  case listening =>
    intro h
    rw [pc] at h
    simp only [State.takeSlot, countReady] at h
    split at h <;> cases h
  case scanning =>
    intro j h k low inside ready
    rw [pc] at h
    obtain ⟨rfl, more⟩ := scan_of_countReady h
    have more : 1 < s.nready := more
    have reports := inv.reports at_ more
    by_cases new : k = i
    · subst new
      have own : s'.client k = { s.client k with fd := connfd, events := POLLRDNORM } := by
        rw [client]
        exact Function.update_self k _ s.client
      rw [own] at ready
      obtain ⟨nonneg, bits⟩ := ready_iff.mp ready
      obtain few | quiet | stops := covered nonneg k free
      · omega
      · exact absurd quiet bits
      · right
        have count : s'.readyCount 1 k = s.readyCount 1 k := by
          rw [← readyCount_takeSlot s k connfd, readyCount, readyCount, client]
        rw [Stops, nready, count]
        omega
    · left
      have same : s'.client k = s.client k := by
        rw [client]
        exact Function.update_of_ne new _ s.client
      have old : k ≤ s.maxindex := by
        have near := freeSlot_le inv.table.slots free
        rw [maxindex] at inside
        simp only [State.takeSlot] at inside
        split at inside <;> omega
      rw [same] at ready
      exact (reports.seen old ready).congr same reported

theorem noConnection (inv : ScanInv s) (table : Table { s with pc := .scan 1 })
    (at_ : s.pc = .listen) (quiet : s.connecting = false) : ScanInv { s with pc := .scan 1 } := by
  refine ⟨table, nofun, fun j h k low inside ready => .inl ?_⟩
  cases h
  obtain reports | ⟨-, -, connecting | silent⟩ := inv.listening at_
  · exact (reports.seen inside ready).congr rfl rfl
  · rw [quiet] at connecting
    cases connecting
  · have noBits := silent k low inside
    exact absurd (ready.symm.trans noBits) nofun

theorem pass {i : Nat} (inv : ScanInv s) (table : Table { s with pc := .scan (i + 1) })
    (at_ : s.pc = .scan i) (quiet : (s.client i).ready = false) :
    ScanInv { s with pc := .scan (i + 1) } := by
  refine ⟨table, nofun, fun j h k low inside ready => ?_⟩
  cases h
  obtain seen | stops := inv.scanning i at_ k (Nat.le_of_succ_le low) inside ready
  · exact .inl (seen.congr rfl rfl)
  · right
    rw [Stops, readyCount_succ low, quiet] at stops
    show max 1 s.nready ≤ s.readyCount (i + 1) k
    simpa using stops

theorem serve {i : Nat} {r : ReadResult} (inv : ScanInv s)
    (table : Table ((s.serve i r).countReady (.scan (i + 1)))) (at_ : s.pc = .scan i)
    (readable : (s.client i).ready = true) :
    ScanInv ((s.serve i r).countReady (.scan (i + 1))) := by
  obtain ⟨maxindex, nready, reported⟩ := serve_fixed s i r
  have same (j : Nat) (hj : i < j) : (s.serve i r).client j = s.client j :=
    serve_client_of_ne r (Nat.ne_of_gt hj)
  constructor
  case table => exact table
  case listening =>
    intro h
    simp only [countReady] at h
    split at h <;> cases h
  case scanning =>
    intro j h k low inside ready
    obtain ⟨rfl, more⟩ := scan_of_countReady h
    have old : (s.client k).ready = true := by
      rw [← same k low]
      exact ready
    have inside : k ≤ s.maxindex := by
      rw [← maxindex]
      exact inside
    obtain seen | stops := inv.scanning i at_ k (Nat.le_of_succ_le low) inside old
    · exact .inl (seen.congr (same k low) reported)
    · right
      have count : ((s.serve i r).countReady (.scan (i + 1))).readyCount (i + 1) k =
          s.readyCount (i + 1) k := by
        apply readyCount_congr
        intro j after _
        exact congrArg Pollfd.ready (same j after)
      rw [Stops, readyCount_succ low, readable] at stops
      rw [Stops, count]
      simp only [countReady, nready, Bool.toNat_true] at stops more ⊢
      omega

theorem step (inv : ScanInv s) (h : Step s act s') (covered : s.Covered act) : ScanInv s' := by
  have table := inv.table.step h
  cases effect_of_step h with
  | poll r at_ => exact .poll table covered
  | full connfd at_ full => exact of_table table nofun nofun
  | fullFails at_ full => exact of_table table nofun nofun
  | accept connfd i at_ fresh free =>
      exact inv.takeSlot at_ free rfl rfl rfl rfl rfl table fun _ => covered
  | acceptFails i at_ free =>
      exact inv.takeSlot at_ free rfl rfl rfl rfl rfl table fun nonneg => absurd nonneg (by decide)
  | noConnection at_ quiet => exact inv.noConnection table at_ quiet
  | pass i at_ inside quiet => exact inv.pass table at_ quiet
  | serve i r at_ inside ready possible => exact inv.serve table at_ ready
  | endScan i at_ outside => exact of_table table nofun nofun

end ScanInv

def Action.isPoll : Action → Bool
  | .poll _ => true
  | _ => false

/-- Only `poll` leads to the branch for the listening socket. -/
theorem not_listen_of_step (h : Step s act s') (noPoll : act.isPoll = false) :
    s'.pc ≠ .listen := by
  intro listen
  cases effect_of_step h with
  | poll r at_ => cases noPoll
  | full connfd at_ full => cases listen
  | fullFails at_ full => cases listen
  | accept connfd i at_ fresh free =>
      simp only [openConn, State.takeSlot, countReady] at listen
      split at listen <;> cases listen
  | acceptFails i at_ free =>
      simp only [State.takeSlot, countReady] at listen
      split at listen <;> cases listen
  | noConnection at_ quiet => cases listen
  | pass i at_ inside quiet => cases listen
  | serve i r at_ inside ready possible =>
      simp only [countReady] at listen
      split at listen <;> cases listen
  | endScan i at_ outside => cases listen

/-- The rest of an iteration, once its `poll` and its `accept` are covered. -/
theorem ScanInv.steps {as : List Action} (inv : ScanInv s)
    (few : s.pc = .listen → s.nready ≤ 1) (noPoll : ∀ act ∈ as, act.isPoll = false)
    (run : Steps Step s as s') : ScanInv s' := by
  induction run with
  | nil s => exact inv
  | @cons s t u act as first rest ih =>
      have notPoll : act.isPoll = false := noPoll act List.mem_cons_self
      apply ih
      · apply inv.step first
        cases act with
        | poll r => cases notPoll
        | accept connfd =>
            intro i free
            cases effect_of_step first with
            | full connfd at_ full => exact .inl (few at_)
            | accept connfd i at_ fresh free => exact .inl (few at_)
        | acceptFails => trivial
        | noConnection => trivial
        | pass => trivial
        | serve r => trivial
        | endScan => trivial
      · intro listen
        exact absurd listen (not_listen_of_step first notPoll)
      · intro b mem
        exact noPoll b (List.mem_cons_of_mem act mem)

/-- The scan can come to slot `j` unless `nready` is used up before. -/
theorem exists_scan {i j : Nat} (at_ : s.pc = .scan i) (le : i ≤ j) (inside : j ≤ s.maxindex)
    (short : s.readyCount i j < max 1 s.nready) :
    ∃ as t, (∀ act ∈ as, act.isPoll = false) ∧ Steps Step s as t ∧ t.pc = .scan j ∧
      t.maxindex = s.maxindex ∧ t.client = s.client ∧ t.reported = s.reported := by
  obtain ⟨n, rfl⟩ := Nat.exists_eq_add_of_le le
  induction n generalizing s i with
  | zero => exact ⟨[], s, nofun, .nil s, at_, rfl, rfl, rfl⟩
  | succ n ih =>
      have next : i + 1 + n = i + (n + 1) := by omega
      rw [readyCount_succ (by omega), ← next] at short
      rw [← next] at inside ⊢
      cases ready : (s.client i).ready with
      | false =>
          have first : Step s .pass { s with pc := .scan (i + 1) } := by
            simp [Step, State.step, at_, ready, show i ≤ s.maxindex by omega]
          have short' : (s.readyCount (i + 1) (i + 1 + n) : Int) < max 1 s.nready := by
            simpa [ready] using short
          obtain ⟨as, t, noPoll, run, rest⟩ := ih (s := { s with pc := .scan (i + 1) }) rfl
            (Nat.le_add_right _ _) inside short'
          exact ⟨.pass :: as, t, by simpa [Action.isPoll] using noPoll, .cons first run, rest⟩
      | true =>
          rw [ready, Bool.toNat_true] at short
          have left : ¬ s.nready - 1 ≤ 0 := by omega
          have first : Step s (.serve .error)
              { s with nready := s.nready - 1, pc := .scan (i + 1) } := by
            simp [Step, State.step, at_, ready, show i ≤ s.maxindex by omega,
              ReadResult.Possible, State.serve, State.countReady, left]
          have short' : (s.readyCount (i + 1) (i + 1 + n) : Int) < max 1 (s.nready - 1) := by
            omega
          obtain ⟨as, t, noPoll, run, rest⟩ :=
            ih (s := { s with nready := s.nready - 1, pc := .scan (i + 1) }) rfl
              (Nat.le_add_right _ _) inside short'
          exact ⟨.serve .error :: as, t, by simpa [Action.isPoll] using noPoll,
            .cons first run, rest⟩

/-- A new connection is not among the descriptors that `poll` has reported. -/
theorem not_seen_of_fresh {connfd : Int} (slots : Slots s) (reports : s.Reports)
    (fresh : s.Fresh connfd) (revents : Events) : (connfd, revents) ∉ s.reported := by
  obtain ⟨nonneg, notListen, unused⟩ := fresh
  rw [reports]
  intro mem
  obtain ⟨k, inside, same⟩ := List.mem_map.mp mem
  have inside : k ≤ s.maxindex := Nat.le_of_lt_succ (List.mem_range.mp inside)
  have same : (s.client k).fd = connfd := congrArg Prod.fst same
  by_cases zero : k = 0
  · apply notListen
    rw [← same, zero, slots.listen]
  · have slot : IsSlot k := ⟨by omega, Nat.lt_of_le_of_lt inside slots.bound⟩
    apply (slots.used k slot (by omega)).1
    rw [same, unused]

/-- An `accept` that is not covered can be followed by a `read` of the new connection. -/
theorem exists_unseen_of_accept {connfd : Int} (inv : ScanInv s)
    (h : Step s (.accept connfd) s') (uncovered : ¬ s.Covered (.accept connfd)) :
    ∃ as t, (∀ act ∈ as, act.isPoll = false) ∧ Steps Step s' as t ∧ ¬ t.ReadsSeen := by
  simp only [Covered, not_forall, not_or] at uncovered
  obtain ⟨i, free, more, bits, beyond⟩ := uncovered
  cases effect_of_step h with
  | full connfd at_ full =>
      rw [full] at free
      cases free
  | accept connfd j at_ fresh free' =>
      obtain rfl : i = j := Option.some.inj (free.symm.trans free')
      have reports := inv.reports at_ (by omega)
      have own : (s.takeSlot i connfd).client i =
          { s.client i with fd := connfd, events := POLLRDNORM } :=
        Function.update_self i _ s.client
      have left : ¬ s.nready - 1 ≤ 0 := by omega
      have pc : ((s.takeSlot i connfd).openConn connfd).pc = .scan 1 := if_neg left
      have low : 1 ≤ i := (freeSlot_spec free).1
      have inside : i ≤ (s.takeSlot i connfd).maxindex := by
        simp only [State.takeSlot]
        split <;> omega
      have short : ((s.takeSlot i connfd).readyCount 1 i : Int) < max 1 (s.nready - 1) := by
        rw [readyCount_takeSlot]
        omega
      obtain ⟨as, t, noPoll, run, at_, maxindex, client, reported⟩ :=
        exists_scan pc low inside short
      have client : t.client i = { s.client i with fd := connfd, events := POLLRDNORM } := by
        rw [client]
        exact own
      refine ⟨as, t, noPoll, run, ?_⟩
      intro seen
      have ready : (t.client i).ready = true := by
        rw [client]
        exact ready_iff.mpr ⟨fresh.1, bits⟩
      obtain ⟨revents, mem, -⟩ := seen i at_ (by rwa [maxindex]) ready
      rw [client, reported] at mem
      exact not_seen_of_fresh inv.table.slots reports fresh revents mem

/-- A failing `poll` that is not covered can be followed by a `read` as well. -/
theorem exists_unseen_of_failed (uncovered : ¬ s.Covered (.poll .failed)) :
    ∃ as t, (∀ act ∈ as, act.isPoll = false) ∧ Steps Step (s.poll .failed) as t ∧
      ¬ t.ReadsSeen := by
  simp only [Covered, not_or, not_forall, Bool.not_eq_true, Bool.not_eq_false] at uncovered
  obtain ⟨quiet, stale⟩ := uncovered
  have found : ∃ k, 1 ≤ k ∧ k ≤ s.maxindex ∧ (s.client k).ready = true := by
    obtain ⟨k, low, inside, ready⟩ := stale
    exact ⟨k, low, inside, ready⟩
  -- the first slot with the bits is the first one that is read
  obtain ⟨low, inside, ready⟩ := Nat.find_spec found
  have before (j : Nat) (hj : 1 ≤ j) (first : j < Nat.find found) :
      (s.client j).ready = false := by
    have notFound := Nat.find_min found first
    by_contra bits
    exact notFound ⟨hj, by omega, by simpa using bits⟩
  have begun : Step (s.poll .failed) .noConnection
      { s.poll .failed with pc := .scan 1 } := by
    have quiet' : (s.poll .failed).connecting = false := quiet
    simp [Step, State.step, quiet']
    rfl
  have short : ((s.readyCount 1 (Nat.find found) : Nat) : Int) < max 1 (-1) := by
    rw [readyCount_eq_zero before]
    decide
  obtain ⟨as, t, noPoll, run, at_, maxindex, client, reported⟩ :=
    exists_scan (s := { s.poll .failed with pc := .scan 1 }) rfl low inside short
  refine ⟨.noConnection :: as, t, by simpa [Action.isPoll] using noPoll, .cons begun run,
    fun seen => ?_⟩
  obtain ⟨revents, mem, -⟩ := seen _ at_ (by rw [maxindex]; exact inside)
    (by rw [client]; exact ready)
  rw [reported] at mem
  cases mem

/-- If every `accept` and every failing `poll` of a run is covered, all its reads are of
descriptors that the iteration's `poll` has reported. In such a run the condition is exact
for each further `accept` or failing `poll`: it holds if and only if no read in the rest of
the iteration can be of another descriptor. -/
theorem reads_seen {listenfd : Int} {client : Nat → Pollfd} {buf : CMemory.Block}
    (h : Reachable (Guarded Covered Step) (.init listenfd client buf) s) :
    s.ReadsSeen ∧
      ∀ act s', (act = .poll .failed ∨ ∃ connfd, act = .accept connfd) → Step s act s' →
        (s.Covered act ↔ ∀ as t, (∀ b ∈ as, b.isPoll = false) → Steps Step s' as t →
          t.ReadsSeen) := by
  have inv : ScanInv s := h.invariant (.init listenfd client buf)
    fun _ _ _ inv hstep => inv.step hstep.2 hstep.1
  refine ⟨inv.readsSeen, ?_⟩
  intro act s' kind hstep
  constructor
  · intro covered as t noPoll run
    have few : s'.pc = .listen → s'.nready ≤ 1 := by
      intro listen
      obtain rfl | ⟨connfd, rfl⟩ := kind
      · cases effect_of_step hstep
        show (-1 : Int) ≤ 1
        decide
      · exact absurd listen (not_listen_of_step hstep rfl)
    exact ((inv.step hstep covered).steps few noPoll run).readsSeen
  · intro safe
    by_contra uncovered
    obtain rfl | ⟨connfd, rfl⟩ := kind
    · cases effect_of_step hstep
      obtain ⟨as, t, noPoll, run, unseen⟩ := exists_unseen_of_failed uncovered
      exact unseen (safe as t noPoll run)
    · obtain ⟨as, t, noPoll, run, unseen⟩ := exists_unseen_of_accept inv hstep uncovered
      exact unseen (safe as t noPoll run)

/-- An array as it may stand on the stack before `main` has written to it. -/
def garbage : Nat → Pollfd := fun _ => ⟨0, 0, POLLRDNORM⟩

/-- Slot 2 has the bits from the start, but the scan is left behind slot 1. -/
theorem reads_seen_left_early :
    ∃ s, Reachable (Guarded Covered Step) (.init 3 garbage []) s ∧ s.pc = .scan 1 ∧
      (s.client 2).ready = true ∧ s.ReadsSeen := by
  have run : ∃ s, Steps (Guarded Covered Step) (.init 3 garbage [])
      [.poll (.ok 1 fun _ => POLLRDNORM), .accept 5, .poll (.ok 2 fun _ => POLLRDNORM),
        .accept 6] s ∧ s.pc = .scan 1 ∧ (s.client 2).ready = true := by
    refine ⟨_, .cons ⟨trivial, rfl⟩ (.cons ⟨fun i free => .inl ?_, rfl⟩ (.cons ⟨trivial, rfl⟩
      (.single ⟨fun i free => .inr (.inr ?_), rfl⟩))), rfl, rfl⟩
    · decide
    · cases free
      decide
  obtain ⟨s, steps, at_, ready⟩ := run
  exact ⟨s, ⟨_, steps⟩, at_, ready, (reads_seen ⟨_, steps⟩).1⟩

/-- Connection 5 has hung up and a new one comes, which gets slot 2. The hangup uses up
nothing of `nready`, so the scan comes to slot 2. Or `poll` fails once connection 5 has been
read, and the scan reads it again. -/
theorem reads_unseen :
    (∃ s, Reachable Step (.init 3 garbage []) s ∧ s.pc = .scan 2 ∧ (s.client 2).fd = 6 ∧
      s.reported = [(3, POLLRDNORM), (5, POLLHUP)] ∧ ¬ s.ReadsSeen) ∧
    ∃ s, Reachable Step (.init 3 garbage []) s ∧ s.pc = .scan 1 ∧ (s.client 1).fd = 5 ∧
      s.reported = [] ∧ ¬ s.ReadsSeen := by
  have hangup : ∃ s, Steps Step (.init 3 garbage [])
      [.poll (.ok 1 fun _ => POLLRDNORM), .accept 5,
        .poll (.ok 2 fun i => if i = 0 then POLLRDNORM else POLLHUP), .accept 6, .pass] s ∧
      s.pc = .scan 2 ∧ (s.client 2).fd = 6 ∧ s.reported = [(3, POLLRDNORM), (5, POLLHUP)] ∧
      2 ≤ s.maxindex ∧ (s.client 2).ready = true :=
    ⟨_, Steps.of_foldlM_option rfl, rfl, rfl, rfl, by decide, rfl⟩
  have failed : ∃ s, Steps Step (.init 3 garbage [])
      [.poll (.ok 1 fun _ => POLLRDNORM), .accept 5,
        .poll (.ok 1 fun i => if i = 0 then 0 else POLLRDNORM), .noConnection,
        .serve (.data [104, 105] (some 2)), .poll .failed, .noConnection] s ∧
      s.pc = .scan 1 ∧ (s.client 1).fd = 5 ∧ s.reported = [] ∧
      1 ≤ s.maxindex ∧ (s.client 1).ready = true :=
    ⟨_, Steps.of_foldlM_option rfl, rfl, rfl, rfl, by decide, rfl⟩
  obtain ⟨s, steps, at_, fd, reported, inside, ready⟩ := hangup
  obtain ⟨t, tSteps, tAt, tFd, tReported, tInside, tReady⟩ := failed
  refine ⟨⟨s, ⟨_, steps⟩, at_, fd, reported, fun seen => ?_⟩,
    ⟨t, ⟨_, tSteps⟩, tAt, tFd, tReported, fun seen => ?_⟩⟩
  · obtain ⟨revents, mem, -⟩ := seen 2 at_ inside ready
    rw [fd, reported] at mem
    simp at mem
  · obtain ⟨revents, mem, -⟩ := seen 1 tAt tInside tReady
    rw [tReported] at mem
    cases mem

end UnixProgramming.PollServer
