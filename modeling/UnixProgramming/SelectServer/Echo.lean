import UnixProgramming.SelectServer.Pass
import UnixProgramming.Library.Ledger

/-!
# What the select server does to its connections

The check for too many clients is never met: a table of `FD_SETSIZE` slots does not fill up
as long as every descriptor has a bit, and `FD_SET` of another one is undefined. So are
`FD_SET` of the -1 of a failed `accept`, `Writen` of the -1 of a failed `read`, and the log line
of a `buff` without a NUL. Up to there each connection is sent what has been read from it, in
order, unless a `Writen` gives up.
-/

namespace UnixProgramming.SelectServer

open CMemory Descriptor Transition Unp Ledger

variable {s s' : State} {act : Action} {as : List Action} {start : Start}

/-! ## Undefined behaviour -/

/-- The results of system calls that the loop cannot take. -/
def Action.Undefined : Action → Prop
  | .accept connfd => ¬ InSet connfd
  | .acceptFails | .serve (.error _) => True
  | _ => False

/-- What a step puts into `buff`. -/
def Action.fills (buff : Block) : Action → Block
  | .serve (.data bytes _) => fill buff bytes
  | _ => buff

/-- The log line behind `Read` finds no NUL in `buff`. -/
def Action.Overreads (buff : Block) : Action → Prop
  | .serve (.data bytes _) => 0 ∉ fill buff bytes
  | _ => False

/-- One of the log lines of a run does. -/
def Overread (buff : Block) : List Action → Prop
  | [] => False
  | act :: as => act.Overreads buff ∨ Overread (act.fills buff) as

theorem not_step_of_undefined (gone : s.pc = .undefined) : ¬ Step s act s' := by
  intro h
  cases act <;> simp [Step, State.step, gone] at h

theorem countReady_defined {next : Pc} (defined : next ≠ .undefined) :
    (s.countReady next).pc ≠ .undefined := by
  simp only [State.countReady]
  split
  · exact nofun
  · exact defined

theorem table_of_step (inv : PassInv s) (h : Step s act s') : Table s :=
  inv.table fun gone => not_step_of_undefined gone h

theorem undefined_of_step (inv : PassInv s) (h : Step s act s') :
    s'.pc = .undefined ↔ act.Undefined ∨ act.Overreads s.buff := by
  have table := table_of_step inv h
  cases effect_of_step table.size h with
  | select r at_ => cases r <;> exact iff_of_false nofun (or_self_iff.mp ·)
  | full at_ full => exact absurd full table.freeSlot_ne_none
  | fullFails at_ full => exact absurd full table.freeSlot_ne_none
  | accept at_ ready fresh inside free =>
      exact iff_of_false (countReady_defined nofun) (·.elim (absurd inside ·) False.elim)
  | noBit outside lost => exact iff_of_true lost.undefined (.inl outside)
  | noBitFails lost => exact iff_of_true lost.undefined (.inl trivial)
  | noConnection at_ quiet => exact iff_of_false nofun (or_self_iff.mp ·)
  | pass at_ inside quiet => exact iff_of_false nofun (or_self_iff.mp ·)
  | echo at_ inside ready some fits ends =>
      exact iff_of_false (countReady_defined nofun) (·.elim False.elim (absurd ends ·))
  | overread ready some endless => exact iff_of_true rfl (.inr endless)
  | ended at_ inside ready =>
      exact iff_of_false (countReady_defined nofun) (or_self_iff.mp ·)
  | overrun lost => exact iff_of_true lost.undefined (.inl trivial)
  | endScan at_ outside => exact iff_of_false nofun (or_self_iff.mp ·)

theorem buff_of_step (inv : PassInv s) (h : Step s act s') : s'.buff = act.fills s.buff := by
  have table := table_of_step inv h
  cases effect_of_step table.size h with
  | select r at_ => cases r <;> rfl
  | full at_ full => rfl
  | fullFails at_ full => rfl
  | accept at_ ready fresh inside free => rfl
  | noBit outside lost => exact lost.buff
  | noBitFails lost => exact lost.buff
  | noConnection at_ quiet => rfl
  | pass at_ inside quiet => rfl
  | echo at_ inside ready some fits ends => rfl
  | overread ready some endless => rfl
  | ended at_ inside ready => rfl
  | overrun lost => exact lost.buff
  | endScan at_ outside => rfl

theorem undefined_of_steps (inv : PassInv s) (defined : s.pc ≠ .undefined)
    (run : Steps Step s as s') :
    s'.pc = .undefined ↔ (∃ act ∈ as, act.Undefined) ∨ Overread s.buff as := by
  induction run with
  | nil s => exact iff_of_false defined (by simp [Overread])
  | @cons s t u act as first rest ih =>
      have here := undefined_of_step inv first
      rw [List.exists_mem_cons_iff, Overread, or_or_or_comm, ← here]
      by_cases gone : t.pc = .undefined
      · refine iff_of_true ?_ (.inl gone)
        cases rest with
        | nil => exact gone
        | cons next _ => exact absurd next (not_step_of_undefined gone)
      · rw [ih (inv.step first) gone, buff_of_step inv first, or_iff_right gone]

/-- No run comes to the exit for too many clients. A run comes to undefined behaviour if and
only if an `accept` fails or returns a descriptor without a bit, a `read` fails, or a `read`
returns bytes and leaves no NUL in `buff` for the log line. -/
theorem undefined_iff (run : Steps Step (.init start) as s) :
    s.pc ≠ .exited ∧
    (s.pc = .undefined ↔ (∃ act ∈ as, act.Undefined) ∨ Overread start.buff as) := by
  constructor
  · intro exited
    have inv := passInv ⟨as, run⟩
    rw [PassInv, exited] at inv
    exact inv
  · have begun : (State.init start).pc ≠ .undefined := by
      intro gone
      cases gone
    exact undefined_of_steps (.init start) begun run

/-- One connection is open. The next one gets a descriptor without a bit, while most slots are
still free. -/
theorem undefined_iff_no_bit :
    ∃ s, Reachable Step (.init start3) s ∧ s.client 2 = -1 ∧ s.pc = .undefined := by
  have run : ∃ s, Steps Step (.init start3)
      [.select (.ok {3}), .accept 5, .select (.ok {3}), .accept 1024] s ∧ s.client 2 = -1 :=
    ⟨_, Steps.of_foldlM_option rfl, rfl⟩
  obtain ⟨s, steps, free⟩ := run
  refine ⟨s, ⟨_, steps⟩, free, (undefined_iff steps).2.mpr (.inl ⟨.accept 1024, by simp, ?_⟩)⟩
  show ¬ InSet 1024
  decide

/-! ## What is sent back -/

theorem echo_step {i : Nat} {bytes : Block} {out : Sink} (size : s.buff.length = MAXLINE)
    (at_ : s.pc = .scan i) (inside : i ≤ s.maxi) (ready : s.ready i = true)
    (some : 0 < bytes.length) (fits : bytes.length ≤ MAXLINE) (ends : 0 ∈ fill s.buff bytes) :
    Step s (.serve (.data bytes out)) ((s.echoed i bytes out).countReady (.scan (i + 1))) := by
  have possible : (ReadResult.data bytes out).Possible := ⟨some, fits⟩
  simp only [Step, State.step, at_, inside, ready, possible, visit_data size at_ fits ends,
    and_self, if_true]

/-- A connection that is open or has been closed. -/
def State.Serves (s : State) (tr : Traffic) : Prop := Kept s.conn s.closed tr

/-- The connections other than the one on `fd`. -/
def State.ServesBeside (s : State) (fd : Int) (tr : Traffic) : Prop :=
  KeptBeside s.conn s.closed fd tr

/-- The bytes of one `read`, and what the `Writen` of them sends. -/
def Traffic.echo (tr : Traffic) (bytes : Block) (out : Sink) : Traffic :=
  ⟨tr.got ++ bytes, tr.sent ++ bytes.take (sends out bytes.length)⟩

/-- The `Writen` behind a `read` does not give up. -/
def Action.WritesAll : Action → Prop
  | .serve (.data bytes out) => sends out bytes.length = bytes.length
  | _ => True

section Serves

variable {tr new : Traffic} {i : Nat}

theorem serves_congr (conn : s'.conn = s.conn) (closed : s'.closed = s.closed) :
    s'.Serves new ↔ s.Serves new := by
  rw [State.Serves, conn, closed, State.Serves]

/-- Nothing of a connection is lost when it is closed. -/
theorem serves_ended (h : s.conn (s.client i) = some tr) :
    (s.ended i).Serves new ↔ s.Serves new := by
  have closed : (s.ended i).closed = tr :: s.closed := by
    simp [State.ended, State.close, h]
  rw [State.Serves, closed]
  exact kept_retire h

theorem serves_echoed {bytes : Block} {out : Sink} (h : s.conn (s.client i) = some tr) :
    (s.echoed i bytes out).Serves new ↔
      new = tr.echo bytes out ∨ s.ServesBeside (s.client i) new := by
  have conn : (s.echoed i bytes out).conn =
      Function.update s.conn (s.client i) (some (tr.echo bytes out)) := by
    simp only [State.echoed, h]
    rfl
  rw [State.Serves, conn]
  exact kept_bind

theorem serves_overread {bytes : Block} (h : s.conn (s.client i) = some tr) :
    (s.overread i bytes).Serves new ↔
      new = ⟨tr.got ++ bytes, tr.sent⟩ ∨ s.ServesBeside (s.client i) new := by
  have conn : (s.overread i bytes).conn =
      Function.update s.conn (s.client i) (some ⟨tr.got ++ bytes, tr.sent⟩) := by
    simp only [State.overread, State.receive, h]
    rfl
  rw [State.Serves, conn]
  exact kept_bind

theorem serves_watch {connfd : Int} (fresh : s.Fresh connfd) :
    ((s.setClient i connfd).watch i connfd).Serves new ↔ new = ⟨[], []⟩ ∨ s.Serves new := by
  have beside : KeptBeside s.conn s.closed connfd new ↔ s.Serves new :=
    keptBeside_of_none fresh.2.2
  rw [← beside]
  exact kept_bind

end Serves

/-- A step that sends back all it reads. -/
def Action.EchoesAll (buff : Block) (act : Action) : Prop := act.WritesAll ∧ ¬ act.Overreads buff

/-- What one step does to the connections. -/
inductive Change (s : State) : Action → State → Prop
  | same {act : Action} {s' : State} (all : act.EchoesAll s.buff)
      (serves : ∀ new, s'.Serves new ↔ s.Serves new) : Change s act s'
  | opened {act : Action} {s' : State} (all : act.EchoesAll s.buff)
      (serves : ∀ new, s'.Serves new ↔ new = ⟨[], []⟩ ∨ s.Serves new) : Change s act s'
  | echoed {s' : State} {fd : Int} {tr : Traffic} {bytes : Block} {out : Sink}
      (at_ : s.conn fd = some tr) (ends : 0 ∈ fill s.buff bytes)
      (serves : ∀ new, s'.Serves new ↔ new = tr.echo bytes out ∨ s.ServesBeside fd new) :
      Change s (.serve (.data bytes out)) s'
  | received {s' : State} {fd : Int} {tr : Traffic} {bytes : Block} {out : Sink}
      (at_ : s.conn fd = some tr) (some : 0 < bytes.length) (endless : 0 ∉ fill s.buff bytes)
      (serves : ∀ new, s'.Serves new ↔ new = ⟨tr.got ++ bytes, tr.sent⟩ ∨ s.ServesBeside fd new) :
      Change s (.serve (.data bytes out)) s'

theorem change_of_step (inv : PassInv s) (h : Step s act s') : Change s act s' := by
  have table := table_of_step inv h
  have quiet : True ∧ ¬ False := ⟨trivial, not_false⟩
  have opened (i : Nat) (ready : s.ready i = true) : ∃ tr, s.conn (s.client i) = some tr := by
    rw [State.ready, Bool.and_eq_true] at ready
    have nonneg := of_decide_eq_true ready.1
    exact Option.ne_none_iff_exists'.mp (table.slots.used i (by omega))
  cases effect_of_step table.size h with
  | select r at_ => cases r <;> exact .same quiet fun _ => Iff.rfl
  | full at_ full => exact absurd full table.freeSlot_ne_none
  | fullFails at_ full => exact absurd full table.freeSlot_ne_none
  | accept at_ ready fresh inside free => exact .opened quiet fun _ => serves_watch fresh
  | noBit outside lost => exact .same quiet fun _ => serves_congr lost.conn lost.closed
  | noBitFails lost => exact .same quiet fun _ => serves_congr lost.conn lost.closed
  | noConnection at_ unset => exact .same quiet fun _ => Iff.rfl
  | pass at_ inside unset => exact .same quiet fun _ => Iff.rfl
  | @echo i bytes out at_ inside ready some fits ends =>
      obtain ⟨tr, conn⟩ := opened i ready
      exact .echoed conn ends fun _ => serves_echoed conn
  | @overread i bytes out ready some endless =>
      obtain ⟨tr, conn⟩ := opened i ready
      exact .received conn some endless fun _ => serves_overread conn
  | @ended i at_ inside ready =>
      obtain ⟨tr, conn⟩ := opened i ready
      exact .same quiet fun _ => serves_ended conn
  | overrun lost => exact .same quiet fun _ => serves_congr lost.conn lost.closed
  | endScan at_ outside => exact .same quiet fun _ => Iff.rfl

/-- Nothing is sent that has not been read, and nothing out of order. -/
structure EchoInv (s : State) : Prop where
  pass : PassInv s
  part : ∀ tr, s.Serves tr → tr.sent.Sublist tr.got

theorem not_serves_init (start : Start) (tr : Traffic) : ¬ (State.init start).Serves tr := by
  rintro (⟨fd, opened⟩ | gone)
  · cases opened
  · cases gone

theorem EchoInv.init (start : Start) : EchoInv (.init start) :=
  ⟨.init start, fun tr serves => absurd serves (not_serves_init start tr)⟩

theorem EchoInv.step (inv : EchoInv s) (h : Step s act s') : EchoInv s' := by
  refine ⟨inv.pass.step h, fun new new_serves => ?_⟩
  cases change_of_step inv.pass h with
  | same all serves => exact inv.part new ((serves new).mp new_serves)
  | opened all serves =>
      obtain rfl | old := (serves new).mp new_serves
      · exact List.Sublist.refl []
      · exact inv.part new old
  | @echoed _ fd tr bytes out at_ ends serves =>
      obtain rfl | beside := (serves new).mp new_serves
      · exact (inv.part tr (.inl ⟨fd, at_⟩)).append (List.take_sublist _ bytes)
      · exact inv.part new ((kept_iff at_).mpr (.inr beside))
  | @received _ fd tr bytes out at_ some endless serves =>
      obtain rfl | beside := (serves new).mp new_serves
      · exact (inv.part tr (.inl ⟨fd, at_⟩)).trans (List.sublist_append_left _ bytes)
      · exact inv.part new ((kept_iff at_).mpr (.inr beside))

/-- A byte that a `Writen` leaves out never comes later. -/
theorem echo_complete_iff {tr : Traffic} {bytes : Block} {out : Sink}
    (part : tr.sent.Sublist tr.got) :
    (tr.echo bytes out).sent = (tr.echo bytes out).got ↔
      tr.sent = tr.got ∧ sends out bytes.length = bytes.length := by
  have most := sends_le out bytes.length
  constructor
  · intro same
    have total := congrArg List.length same
    have behind := part.length_le
    simp only [Traffic.echo, List.length_append, List.length_take] at total
    exact ⟨(List.append_inj same (by omega)).1, by omega⟩
  · rintro ⟨sent, all⟩
    rw [Traffic.echo, sent, all, List.take_length]

/-- Each connection has been sent all that has been read from it. -/
def State.Echoes (s : State) : Prop := ∀ tr, s.Serves tr → tr.sent = tr.got

theorem echoes_step (inv : EchoInv s) (h : Step s act s') :
    s'.Echoes ↔ s.Echoes ∧ act.EchoesAll s.buff := by
  cases change_of_step inv.pass h with
  | same all serves =>
      rw [and_iff_left all]
      exact forall_congr' fun new => imp_congr_left (serves new)
  | opened all serves =>
      rw [and_iff_left all]
      constructor
      · intro echoes tr old
        exact echoes tr ((serves tr).mpr (.inr old))
      · intro echoes tr new_serves
        obtain rfl | old := (serves tr).mp new_serves
        · rfl
        · exact echoes tr old
  | @echoed _ fd tr bytes out at_ ends serves =>
      have complete := @echo_complete_iff tr bytes out (inv.part tr (.inl ⟨fd, at_⟩))
      have nul : ¬ (Action.serve (.data bytes out)).Overreads s.buff := not_not_intro ends
      rw [Action.EchoesAll, and_iff_left nul]
      constructor
      · intro echoes
        have own := complete.mp (echoes _ ((serves _).mpr (.inl rfl)))
        refine ⟨fun old old_serves => ?_, own.2⟩
        obtain rfl | beside := (kept_iff at_).mp old_serves
        · exact own.1
        · exact echoes old ((serves old).mpr (.inr beside))
      · rintro ⟨echoes, all⟩ new new_serves
        obtain rfl | beside := (serves new).mp new_serves
        · exact complete.mpr ⟨echoes tr (.inl ⟨fd, at_⟩), all⟩
        · exact echoes new ((kept_iff at_).mpr (.inr beside))
  | @received _ fd tr bytes out at_ some endless serves =>
      -- what has just been read has not been sent
      refine iff_of_false (fun echoes => ?_) fun all => all.2.2 endless
      have whole : tr.sent.length = (tr.got ++ bytes).length :=
        congrArg List.length (echoes _ ((serves _).mpr (.inl rfl)))
      have behind := (inv.part tr (.inl ⟨fd, at_⟩)).length_le
      rw [List.length_append] at whole
      omega

theorem echoes_steps (inv : EchoInv s) (run : Steps Step s as s') :
    s'.Echoes ↔ s.Echoes ∧ (∀ act ∈ as, act.WritesAll) ∧ ¬ Overread s.buff as := by
  induction run with
  | nil s => simp [Overread]
  | cons first rest ih =>
      rw [ih (inv.step first), echoes_step inv first, buff_of_step inv.pass first,
        List.forall_mem_cons, Overread, not_or, and_assoc, Action.EchoesAll, and_and_and_comm]

/-- At each point of each run every connection, open or closed, has been sent exactly what has
been read from it, if and only if no `Writen` of the run has given up and no log line has read
on behind `buff`. In any run what has been sent is a part of what has been read, in order. -/
theorem echoes_all_iff (run : Steps Step (.init start) as s) :
    (∀ tr, s.Serves tr → tr.sent.Sublist tr.got) ∧
    (s.Echoes ↔ (∀ bytes out, .serve (.data bytes out) ∈ as →
      sends out bytes.length = bytes.length) ∧ ¬ Overread start.buff as) := by
  have inv : EchoInv s := run.invariant (fun _ _ _ inv step => inv.step step) (.init start)
  refine ⟨inv.part, ?_⟩
  have begun : (State.init start).Echoes := fun tr serves =>
    absurd serves (not_serves_init start tr)
  rw [echoes_steps (.init start) run, and_iff_right begun]
  apply and_congr_left
  intro _
  constructor
  · intro all bytes out mem
    exact all _ mem
  · intro all act mem
    match act, mem with
    | .serve (.data bytes out), mem => exact all bytes out mem
    | .serve .eof, _ | .serve (.error _), _ | .select _, _ | .accept _, _ | .acceptFails, _
    | .noConnection, _ | .pass, _ | .endScan, _ => trivial

/-- Two connections in one pass. A `write` for the first one is short and another interrupted,
and that for the second one fails. -/
theorem echoes_all_iff_two :
    ∃ s, Reachable Step (.init start3) s ∧ ¬ s.Echoes ∧
      s.conn 5 = some ⟨[104, 105], [104, 105]⟩ ∧ s.conn 6 = some ⟨[111], []⟩ := by
  have opened : ∃ s, Steps Step (.init start3)
      [.select (.ok {3}), .accept 5, .select (.ok {3}), .accept 6, .select (.ok {5, 6}),
        .noConnection] s ∧ s.pc = .scan 0 ∧ s.maxi = 1 ∧ s.ready 0 = true ∧ s.ready 1 = true ∧
      s.client 0 = 5 ∧ s.client 1 = 6 ∧ s.nready = 2 ∧ s.conn 5 = some ⟨[], []⟩ ∧
      s.conn 6 = some ⟨[], []⟩ ∧ s.buff = List.replicate MAXLINE 0 :=
    ⟨_, Steps.of_foldlM_option rfl, rfl, rfl, rfl, rfl, rfl, rfl, rfl, rfl, rfl, rfl⟩
  obtain ⟨s, steps, at_, maxi, ready, ready', client, client', nready, five, six, buff⟩ := opened
  have zeros : 0 ∈ s.buff.drop 2 := by
    rw [buff, List.drop_replicate]
    exact List.mem_replicate.mpr ⟨by decide, rfl⟩
  have size := ((passInv ⟨_, steps⟩).table (by simp [at_])).size
  have first := @echo_step s 0 [104, 105] [.accept 1, .fail .eintr] size at_ (by simp [maxi])
    ready (by decide) (by decide) (List.mem_append_right _ zeros)
  have steps' := steps.append (.single first)
  have at' : ((s.echoed 0 [104, 105] [.accept 1, .fail .eintr]).countReady (.scan 1)).pc =
      .scan 1 := by
    simp [State.countReady, State.echoed, nready]
  have size' := ((passInv ⟨_, steps'⟩).table (by simp [at'])).size
  have second := @echo_step _ 1 [111] [.fail (.other 104)] size' at'
    (by simp [State.countReady, State.echoed, maxi]) ready' (by decide) (by decide)
    (List.mem_append_right [111, 105] zeros)
  have all := steps'.append (.single second)
  refine ⟨_, ⟨_, all⟩, ?_, ?_, ?_⟩
  · rw [(echoes_all_iff all).2]
    intro complete
    have stopped := complete.1 [111] [.fail (.other 104)] (by simp)
    cases stopped
  · simp [State.countReady, State.echoed, client, client', five, six, sends]
  · simp [State.countReady, State.echoed, client, client', five, six, sends]

end UnixProgramming.SelectServer
