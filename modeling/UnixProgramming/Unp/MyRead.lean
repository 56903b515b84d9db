import UnixProgramming.Unp.Readline

/-!
# `my_read` as an iterator over a descriptor

A log records each call of `my_read`: what its `read` returned, if it made one, and
what it delivered. Whatever the descriptor does, a call takes the next item of the
bytes still buffered and the script behind them. On a script that fails only by
interruption no byte is lost, added or moved.
-/

namespace UnixProgramming.Unp

open CMemory Descriptor Fallible

/-- `readlinebuf_v3`: what it leaves in `*vptrptr`, and its value. -/
def readlinebufV3 (st : ReadState) (vptr : Option Nat) : Option Nat × Int :=
  (if st.readCnt ≠ 0 then st.readPtr else vptr, st.readCnt)

/-- The last result of the `read` loop in a call of `my_read`, which is skipped while
bytes are buffered. -/
def refill (fd : Script) (st : ReadState) : Option (Except Errno (List UInt8)) :=
  if st.readCnt ≤ 0 then some (readAgain MAXLINE fd).1 else none

/-- A call of `my_read`, with the `read` in it. -/
structure MyReadCall where
  refill : Option (Except Errno (List UInt8))
  ret : Int
  c : UInt8

namespace MyReadCall

/-- The bytes that the call reads from the descriptor. -/
def received (call : MyReadCall) : List UInt8 :=
  match call.refill with
  | some (.ok bytes) => bytes
  | _ => []

/-- The byte that the call returns. -/
def delivered (call : MyReadCall) : List UInt8 := if call.ret = 1 then [call.c] else []

/-- The `read` of the call fails for another reason than an interruption. -/
def Failed (call : MyReadCall) : Prop := ∃ code, call.refill = some (.error (.other code))

end MyReadCall

def receivedIn (log : List MyReadCall) : List UInt8 := log.flatMap MyReadCall.received

def deliveredIn (log : List MyReadCall) : List UInt8 := log.flatMap MyReadCall.delivered

/-- Call after call, each with what the caller's variable `c` held before. -/
def myReads (fd : Script) (st : ReadState) :
    List UInt8 → Except Fault (List MyReadCall × ReadState × Script)
  | [] => .ok ([], st, fd)
  | c :: cs => do
      let r ← myRead fd st c
      let (log, st', fd') ← myReads r.fd r.state cs
      return (⟨refill fd st, r.ret, r.c⟩ :: log, st', fd')

/-! ## One call -/

/-- The bytes still buffered and the items behind them. -/
def pending (fd : Script) (st : ReadState) : List Item := st.unread.map .byte ++ itemsOf fd

/-- What a call of `my_read` does, by the item that comes next. A failed `read` is not
reported: the call returns 1 like one that delivers a byte. -/
inductive MyReadEffect (fd : Script) (st : ReadState) (r : Char1) : Prop
  | byte (ret : r.ret = 1) (valid : r.state.Valid)
      (next : pending fd st = .byte r.c :: pending r.fd r.state)
      (noFailure : ∀ code, refill fd st ≠ some (.error (.other code)))
      (buffered : st.unread ++ (MyReadCall.mk (refill fd st) r.ret r.c).received =
        r.c :: r.state.unread)
  | eof (ret : r.ret = 0) (valid : r.state.Valid) (empty : st.readCnt = 0)
      (empty' : r.state.readCnt = 0) (read : refill fd st = some (.ok []))
      (next : pending fd st = .eof :: pending r.fd r.state ∨
        pending fd st = [] ∧ pending r.fd r.state = [])
  | failure {code : Nat} (ret : r.ret = 1) (read : refill fd st = some (.error (.other code)))
      (next : ∃ items, pending fd st = .error code :: items)

theorem ReadState.Valid.drained {st : ReadState} (h : st.Valid) :
    Valid { st with readCnt := 0 } where
  size := h.size
  nonneg := by simp
  inside := by simp

theorem pending_of_readCnt_eq_zero {st : ReadState} (empty : st.readCnt = 0) (fd : Script) :
    pending fd st = itemsOf fd := by
  rw [pending, ReadState.unread_of_readCnt_eq_zero empty]
  rfl

theorem myRead_effect {st : ReadState} (valid : st.Valid) (fd : Script) (c : UInt8) :
    ∃ r, myRead fd st c = .ok r ∧ MyReadEffect fd st r := by
  by_cases empty : st.readCnt ≤ 0
  · have spent : st.readCnt = 0 := by
      have := valid.nonneg
      omega
    have nothing := ReadState.unread_of_readCnt_eq_zero spent
    have start := pending_of_readCnt_eq_zero spent fd
    have call : refill fd st = some (readAgain MAXLINE fd).1 := if_pos empty
    have takes := readAgain_items (by decide : 0 < MAXLINE) fd
    rw [myRead, if_pos empty]
    generalize readAgain MAXLINE fd = result at takes call
    cases takes with
    | exhausted items =>
        refine ⟨_, rfl, .eof rfl valid.drained spent rfl call (.inr ⟨?_, ?_⟩)⟩
        · rw [start, items]
        · exact pending_of_readCnt_eq_zero rfl _
    | @eof rest items =>
        refine ⟨_, rfl, .eof rfl valid.drained spent rfl call (.inl ?_)⟩
        rw [start, items, pending_of_readCnt_eq_zero rfl]
    | @bytes b bytes rest short items =>
        have buffered := ReadState.unread_refill st.readBuf (b :: bytes)
        obtain ⟨c', st', run, valid', unread⟩ := deliver_spec (valid.refill short) (by simp) rest
        refine ⟨_, run, .byte rfl valid' ?_ (by simp [call]) ?_⟩
        · rw [start, items, ← buffered, unread]
          rfl
        · rw [nothing, ← unread, buffered, call]
          rfl
    | @error code rest items =>
        obtain ⟨b, rest', size⟩ := List.exists_cons_of_length_pos
          (by rw [valid.size]; decide : 0 < st.readBuf.length)
        refine ⟨_, by simp [deliver, size, load]; rfl, .failure rfl call ⟨_, start.trans items⟩⟩
  · obtain ⟨b, st', run, valid', unread⟩ := deliver_spec valid (by omega) fd
    have call : refill fd st = none := if_neg empty
    refine ⟨_, by rw [myRead, if_neg empty, run], .byte rfl valid' ?_ (by simp [call]) ?_⟩
    · rw [pending, unread]
      rfl
    · rw [unread, call]
      simp [MyReadCall.received]

/-! ## Any number of calls -/

/-- No call can fail: there is no failure in the script. -/
def PendingFree (fd : Script) (st : ReadState) : Prop := ∀ code, .error code ∉ pending fd st

theorem pendingFree_init {fd : Script} (h : FailureFree fd) : PendingFree fd .init := by
  intro code
  rw [pending_of_readCnt_eq_zero rfl]
  exact h.items code

/-- The bytes among the pending items are those still buffered and those of the script. -/
theorem flatMap_bytes_pending (fd : Script) (st : ReadState) :
    (pending fd st).flatMap Item.bytes = st.unread ++ bytesOf fd := by
  rw [pending, List.flatMap_append, flatMap_bytes_map_byte, bytesOf_eq_flatMap]

/-- What a call without a failure keeps: it takes one pending item, and it delivers a byte
of those buffered or just read. -/
structure Advance (fd : Script) (st : ReadState) (r : Char1) : Prop where
  valid : r.state.Valid
  free : PendingFree r.fd r.state
  order : (MyReadCall.mk (refill fd st) r.ret r.c).delivered ++ r.state.unread =
    st.unread ++ (MyReadCall.mk (refill fd st) r.ret r.c).received
  stream : (MyReadCall.mk (refill fd st) r.ret r.c).received ++ bytesOf r.fd = bytesOf fd
  eof : r.ret = 0 → st.readCnt = 0 ∧ refill fd st = some (.ok [])

/-- A call whose `read` does not fail delivers from the bytes buffered or just read. -/
theorem MyReadEffect.order {fd : Script} {st : ReadState} {r : Char1}
    (effect : MyReadEffect fd st r)
    (noFailure : ∀ code, refill fd st ≠ some (.error (.other code))) :
    (MyReadCall.mk (refill fd st) r.ret r.c).delivered ++ r.state.unread =
      st.unread ++ (MyReadCall.mk (refill fd st) r.ret r.c).received := by
  cases effect with
  | byte ret valid next noFailure buffered =>
      rw [buffered]
      simp [MyReadCall.delivered, ret]
  | eof ret valid empty empty' read next =>
      have nothing := ReadState.unread_of_readCnt_eq_zero empty
      have nothing' := ReadState.unread_of_readCnt_eq_zero empty'
      simp [MyReadCall.delivered, MyReadCall.received, ret, read, nothing, nothing']
  | failure ret read next => exact absurd read (noFailure _)

theorem MyReadEffect.advance {fd : Script} {st : ReadState} {r : Char1}
    (effect : MyReadEffect fd st r) (free : PendingFree fd st) : Advance fd st r := by
  cases id effect with
  | byte ret valid next noFailure buffered =>
      have free' : PendingFree r.fd r.state := fun code mem =>
        free code (next ▸ List.mem_cons_of_mem _ mem)
      refine ⟨valid, free', effect.order noFailure, ?_, fun zero => ?_⟩
      · have bytes := congrArg (List.flatMap Item.bytes) next
        rw [List.flatMap_cons, flatMap_bytes_pending, flatMap_bytes_pending, Item.bytes,
          List.singleton_append, ← List.cons_append, ← buffered, List.append_assoc] at bytes
        exact (List.append_cancel_left bytes).symm
      · omega
  | eof ret valid empty empty' read next =>
      have nothing := ReadState.unread_of_readCnt_eq_zero empty
      have nothing' := ReadState.unread_of_readCnt_eq_zero empty'
      refine ⟨valid, ?_, effect.order (by simp [read]), ?_, fun _ => ⟨empty, read⟩⟩
      · obtain eof | ⟨none, none'⟩ := next
        · intro code mem
          exact free code (eof ▸ List.mem_cons_of_mem _ mem)
        · simp [PendingFree, none']
      · have bytes : st.unread ++ bytesOf fd = r.state.unread ++ bytesOf r.fd := by
          rw [← flatMap_bytes_pending, ← flatMap_bytes_pending]
          obtain eof | ⟨none, none'⟩ := next
          · rw [eof]
            rfl
          · rw [none, none']
        rw [nothing, nothing'] at bytes
        simpa [MyReadCall.received, read] using bytes.symm
  | failure ret read next =>
      obtain ⟨items, next⟩ := next
      exact absurd (next ▸ List.mem_cons_self) (free _)

/-- The bytes delivered and those still buffered are what has been read, in order, and the
pointer into `read_buf` stays inside it. -/
structure LossFree (fd : Script) (log : List MyReadCall) (st : ReadState) (rest : Script) :
    Prop where
  order : deliveredIn log ++ st.unread = receivedIn log
  stream : receivedIn log ++ bytesOf rest = bytesOf fd
  inside : 0 < st.readCnt →
    ∃ p, st.readPtr = some p ∧ p + st.readCnt.toNat ≤ st.readBuf.length
  eof : ∀ c r, myRead rest st c = .ok r → r.ret = 0 →
    st.readCnt = 0 ∧ refill rest st = some (.ok [])
  peek : ∀ vptr, (readlinebufV3 st vptr).2 = st.readCnt ∧
    (st.readCnt ≠ 0 → ∃ p, (readlinebufV3 st vptr).1 = some p ∧
      deliveredIn log ++ (st.readBuf.drop p).take st.readCnt.toNat = receivedIn log)

theorem myReads_spec {fd : Script} {st : ReadState} (valid : st.Valid) (free : PendingFree fd st)
    (cs : List UInt8) : ∃ log st' fd', myReads fd st cs = .ok (log, st', fd') ∧
      log.length = cs.length ∧ st'.Valid ∧ PendingFree fd' st' ∧
      deliveredIn log ++ st'.unread = st.unread ++ receivedIn log ∧
      receivedIn log ++ bytesOf fd' = bytesOf fd := by
  induction cs generalizing fd st with
  | nil => exact ⟨[], st, fd, rfl, rfl, valid, free, by simp [deliveredIn, receivedIn], rfl⟩
  | cons c cs ih =>
      obtain ⟨r, call, effect⟩ := myRead_effect valid fd c
      have advance := effect.advance free
      obtain ⟨log, st', fd', run, length, valid', free', order, stream⟩ :=
        ih advance.valid advance.free
      refine ⟨_ :: log, st', fd', by rw [myReads, call, ok_bind, run]; rfl,
        congrArg Nat.succ length, valid', free', ?_, ?_⟩
      · rw [deliveredIn, List.flatMap_cons, List.append_assoc]
        rw [deliveredIn] at order
        rw [order, ← List.append_assoc, advance.order, List.append_assoc]
        rfl
      · rw [receivedIn, List.flatMap_cons, List.append_assoc]
        rw [receivedIn] at stream
        rw [stream, advance.stream]

theorem LossFree.of_spec {fd rest : Script} {log : List MyReadCall} {st : ReadState}
    (valid : st.Valid) (free : PendingFree rest st)
    (order : deliveredIn log ++ st.unread = receivedIn log)
    (stream : receivedIn log ++ bytesOf rest = bytesOf fd) : LossFree fd log st rest where
  order := order
  stream := stream
  inside pos := valid.size ▸ valid.inside pos
  eof c r call ret := by
    obtain ⟨r', call', effect⟩ := myRead_effect valid rest c
    rw [call] at call'
    cases call'
    exact (effect.advance free).eof ret
  peek vptr := by
    refine ⟨rfl, fun some => ?_⟩
    have := valid.nonneg
    obtain ⟨p, ptr, -⟩ := valid.inside (by omega)
    refine ⟨p, by simp [readlinebufV3, some, ptr], ?_⟩
    simpa [ReadState.unread, ptr] using order

/-- `my_read` is a loss-free iterator: so it is after any number of calls on a script that
fails only by interruption. -/
theorem myReads_lossFree {fd : Script} (failureFree : FailureFree fd) (cs : List UInt8) :
    ∃ log st rest, myReads fd .init cs = .ok (log, st, rest) ∧ log.length = cs.length ∧
      LossFree fd log st rest := by
  obtain ⟨log, st, rest, run, length, valid, free, order, stream⟩ :=
    myReads_spec ReadState.valid_init (pendingFree_init failureFree) cs
  exact ⟨log, st, rest, run, length, .of_spec valid free order stream⟩

/-- Three calls on a script with an interruption and an early end of file. -/
theorem myReads_lossFree_three :
    ∃ log st rest, myReads [.data [104, 105], .fail .eintr, .data []] .init [0, 0, 0] =
      .ok (log, st, rest) ∧ log.length = 3 ∧
      LossFree [.data [104, 105], .fail .eintr, .data []] log st rest :=
  myReads_lossFree (by simp [FailureFree]) [0, 0, 0]

end UnixProgramming.Unp
