import UnixProgramming.Library.Descriptor
import UnixProgramming.Library.Fallible

/-!
# The line readers of `unp.c`

`readline_v1` calls `read` for every byte. `readline_v3` takes its bytes from
`my_read`, which keeps a buffer in static variables across calls. The caller's
buffer is a block, so a write outside it is a fault.
-/

namespace UnixProgramming.Unp

open CMemory Descriptor Fallible

/-- `MAXLINE` of `util.h`, the size of `read_buf`. -/
def MAXLINE : Nat := 512

/-- `'\n'`. -/
def newline : UInt8 := 10

/-- What one call leaves behind: its value, the caller's buffer and the descriptor. -/
structure Line where
  ret : Int
  vptr : Block
  fd : Script

/-- The loop of `readline_v1`, with `left = maxlen - n` iterations to go. -/
def readlineV1Loop (left : Nat) (n : Int) (ptr : Nat) (vptr : Block) (fd : Script) :
    Except Fault Line :=
  match left with
  | 0 => do
      let vptr ← store vptr ptr 0
      return ⟨n, vptr, fd⟩
  | left + 1 =>
      match readAgain 1 fd with
      | (.ok (c :: _), fd) => do
          let vptr ← store vptr ptr c
          if c = newline then
            let vptr ← store vptr (ptr + 1) 0
            return ⟨n, vptr, fd⟩
          else
            readlineV1Loop left (n + 1) (ptr + 1) vptr fd
      | (.ok [], fd) => do
          let vptr ← store vptr ptr 0
          return ⟨n - 1, vptr, fd⟩
      | (.error _, fd) => return ⟨-1, vptr, fd⟩

def readlineV1 (fd : Script) (vptr : Block) (maxlen : Nat) : Except Fault Line :=
  readlineV1Loop (maxlen - 1) 1 0 vptr fd

/-- The static variables of `my_read`. `read_ptr` is an index into `read_buf`, or NULL. -/
structure ReadState where
  readCnt : Int
  readPtr : Option Nat
  readBuf : Block

def ReadState.init : ReadState := ⟨0, none, List.replicate MAXLINE 0⟩

/-- One call of `my_read`: its value, the character at `ptr`, and the state. -/
structure Char1 where
  ret : Int
  c : UInt8
  state : ReadState
  fd : Script

/-- `read_cnt--; *ptr = *read_ptr++; return (1);` -/
def deliver (fd : Script) (st : ReadState) : Except Fault Char1 :=
  match st.readPtr with
  | none => .error .nullPointer
  | some p => do
      let c ← load st.readBuf p
      return ⟨1, c, { st with readCnt := st.readCnt - 1, readPtr := some (p + 1) }, fd⟩

def myRead (fd : Script) (st : ReadState) (c : UInt8) : Except Fault Char1 :=
  if st.readCnt ≤ 0 then
    match readAgain MAXLINE fd with
    | (.ok [], fd) => .ok ⟨0, c, { st with readCnt := 0 }, fd⟩
    | (.ok (b :: bytes), fd) =>
        deliver fd ⟨(b :: bytes).length, some 0, fill st.readBuf (b :: bytes)⟩
    -- a failed `read` is not returned: control falls through to the delivery
    | (.error _, fd) => deliver fd { st with readCnt := -1, readPtr := some 0 }
  else
    deliver fd st

/-- The loop of `readline_v3`. Its `ptr` is never advanced and stays at `vptr`. -/
def readlineV3Loop (left : Nat) (n : Int) (c : UInt8) (vptr : Block) (st : ReadState)
    (fd : Script) : Except Fault (Line × ReadState) :=
  match left with
  | 0 => do
      let vptr ← store vptr 0 0
      return (⟨n, vptr, fd⟩, st)
  | left + 1 => do
      let r ← myRead fd st c
      if r.ret = 1 then
        let vptr ← store vptr 0 r.c
        if r.c = newline then
          let vptr ← store vptr 0 0
          return (⟨n, vptr, r.fd⟩, r.state)
        else
          readlineV3Loop left (n + 1) r.c vptr r.state r.fd
      else if r.ret = 0 then
        let vptr ← store vptr 0 0
        return (⟨n - 1, vptr, r.fd⟩, r.state)
      else
        return (⟨-1, vptr, r.fd⟩, r.state)

/-- The local `c` has no initial value in the source and is not read before `my_read`
stores to it. -/
def readlineV3 (fd : Script) (st : ReadState) (vptr : Block) (maxlen : Nat) :
    Except Fault (Line × ReadState) :=
  readlineV3Loop (maxlen - 1) 1 0 vptr st fd

/-! ## Lines of a byte stream -/

/-- The next line, cut after `left` bytes. -/
def takeLine : Nat → List UInt8 → List UInt8
  | 0, _ | _, [] => []
  | left + 1, c :: bytes => if c = newline then [c] else c :: takeLine left bytes

/-- The stream behind that line. -/
def dropLine : Nat → List UInt8 → List UInt8
  | 0, bytes => bytes
  | _, [] => []
  | left + 1, c :: bytes => if c = newline then bytes else dropLine left bytes

/-- The value of `n` that both readers return: it counts one more than the bytes
stored when the loop ends without a newline or end of file. -/
def lineRet : Nat → Int → List UInt8 → Int
  | 0, n, _ => n
  | _, n, [] => n - 1
  | left + 1, n, c :: bytes => if c = newline then n else lineRet left (n + 1) bytes

/-! ## `readline_v1` -/

/-- The loop with `stored` behind `ptr` stores the next line and a NUL after it. -/
theorem readlineV1Loop_spec (left : Nat) (n : Int) (stored tail : Block) (fd : Script)
    (room : left < tail.length) (clean : Clean fd) :
    ∃ fd', readlineV1Loop left n stored.length (stored ++ tail) fd =
        .ok ⟨lineRet left n (bytesOf fd),
          stored ++ takeLine left (bytesOf fd) ++
            0 :: tail.drop ((takeLine left (bytesOf fd)).length + 1), fd'⟩ ∧
      Clean fd' ∧ bytesOf fd' = dropLine left (bytesOf fd) := by
  induction left generalizing n stored tail fd with
  | zero =>
      obtain ⟨old, tail, rfl⟩ := List.exists_cons_of_length_pos room
      refine ⟨fd, ?_, clean, by cases bytesOf fd <;> rfl⟩
      simp only [readlineV1Loop, store_append_cons]
      cases bytesOf fd <;> simp [takeLine, lineRet]
  | succ left ih =>
      obtain ⟨old, tail, rfl⟩ := List.exists_cons_of_length_pos (by omega : 0 < tail.length)
      obtain ⟨bytes, fd', call, clean', short, stream, atEnd⟩ :=
        readAgain_clean Nat.one_pos clean
      cases bytes with
      | nil =>
          have empty : bytesOf fd = [] := atEnd rfl
          have empty' : bytesOf fd' = [] := stream.trans empty
          refine ⟨fd', ?_, clean', by rw [empty, empty']; rfl⟩
          simp [readlineV1Loop, call, store_append_cons, empty, takeLine, lineRet]
      | cons c more =>
          obtain rfl : more = [] := List.length_eq_zero_iff.mp (by simpa using short)
          have next : bytesOf fd = c :: bytesOf fd' := stream.symm
          by_cases h : c = newline
          · subst h
            obtain ⟨old', tail, rfl⟩ :=
              List.exists_cons_of_length_pos (by simp at room; omega : 0 < tail.length)
            have terminate : store (stored ++ newline :: old' :: tail) (stored.length + 1) 0 =
                .ok (stored ++ [newline] ++ 0 :: tail) :=
              store_of_split 0 (show _ = stored ++ [newline] ++ old' :: tail by simp) (by simp)
            refine ⟨fd', ?_, clean', by simp [next, dropLine]⟩
            simp only [readlineV1Loop, call, store_append_cons, ok_bind, terminate, next,
              takeLine, lineRet, if_true, pure_eq_ok]
            simp
          · obtain ⟨fd'', loop, clean'', rest⟩ := ih (n + 1) (stored ++ [c]) tail fd'
              (by simpa using room) clean'
            refine ⟨fd'', ?_, clean'', by simp [next, dropLine, h, rest]⟩
            simp only [List.length_append, List.length_singleton, List.append_assoc,
              List.singleton_append] at loop
            simp only [readlineV1Loop, call, store_append_cons, ok_bind, if_neg h, loop, next,
              takeLine, lineRet]
            simp

theorem readlineV1_spec {fd : Script} {vptr : Block} {maxlen : Nat} (pos : 1 ≤ maxlen)
    (room : maxlen ≤ vptr.length) (clean : Clean fd) :
    ∃ line, readlineV1 fd vptr maxlen = .ok line ∧
      line.ret = lineRet (maxlen - 1) 1 (bytesOf fd) ∧
      line.vptr = takeLine (maxlen - 1) (bytesOf fd) ++
        0 :: vptr.drop ((takeLine (maxlen - 1) (bytesOf fd)).length + 1) ∧
      Clean line.fd ∧ bytesOf line.fd = dropLine (maxlen - 1) (bytesOf fd) := by
  obtain ⟨fd', loop, clean', rest⟩ :=
    readlineV1Loop_spec (maxlen - 1) 1 [] vptr fd (by omega) clean
  exact ⟨_, loop, rfl, rfl, clean', rest⟩

/-! ## `my_read` -/

namespace ReadState

/-- The bytes of `read_buf` that are not delivered yet. -/
def unread (st : ReadState) : List UInt8 :=
  match st.readPtr with
  | none => []
  | some p => (st.readBuf.drop p).take st.readCnt.toNat

/-- `read_ptr` and the `read_cnt` bytes behind it stay inside `read_buf`. -/
structure Valid (st : ReadState) : Prop where
  size : st.readBuf.length = MAXLINE
  nonneg : 0 ≤ st.readCnt
  inside : 0 < st.readCnt → ∃ p, st.readPtr = some p ∧ p + st.readCnt.toNat ≤ MAXLINE

theorem valid_init : Valid init where
  size := by simp [init]
  nonneg := by simp [init]
  inside := by simp [init]

theorem unread_of_readCnt_eq_zero {st : ReadState} (h : st.readCnt = 0) : st.unread = [] := by
  unfold unread
  split <;> simp [h]

/-- A refill makes all of the bytes just read undelivered. -/
theorem Valid.refill {st : ReadState} (h : st.Valid) {bytes : List UInt8}
    (fits : bytes.length ≤ MAXLINE) :
    Valid ⟨bytes.length, some 0, fill st.readBuf bytes⟩ where
  size := by rw [length_fill (by rw [h.size]; exact fits), h.size]
  nonneg := by simp
  inside _ := ⟨0, rfl, by simpa using fits⟩

theorem unread_refill (buf bytes : List UInt8) :
    unread ⟨bytes.length, some 0, fill buf bytes⟩ = bytes := by
  simp [unread, fill]

end ReadState

/-- Delivery takes the first undelivered byte. -/
theorem deliver_spec {st : ReadState} (valid : st.Valid) (pos : 0 < st.readCnt) (fd : Script) :
    ∃ c st', deliver fd st = .ok ⟨1, c, st', fd⟩ ∧ st'.Valid ∧ st.unread = c :: st'.unread := by
  obtain ⟨p, ptr, inside⟩ := valid.inside pos
  have inBuf : p < st.readBuf.length := by rw [valid.size]; omega
  have count : st.readCnt.toNat = (st.readCnt - 1).toNat + 1 := by omega
  refine ⟨st.readBuf[p], { st with readCnt := st.readCnt - 1, readPtr := some (p + 1) }, ?_,
    ⟨valid.size, by simp; omega, fun _ => ⟨p + 1, rfl, by simp; omega⟩⟩, ?_⟩
  · simp [deliver, ptr, load, inBuf]
  · simp only [ReadState.unread, ptr]
    rw [count, List.drop_eq_getElem_cons inBuf, List.take_succ_cons]

/-- `my_read` is an iterator over the undelivered bytes and the stream behind them. -/
theorem myRead_spec {fd : Script} {st : ReadState} (clean : Clean fd) (valid : st.Valid)
    (c : UInt8) :
    ∃ r, myRead fd st c = .ok r ∧ r.state.Valid ∧ Clean r.fd ∧
      ((r.ret = 1 ∧ st.unread ++ bytesOf fd = r.c :: (r.state.unread ++ bytesOf r.fd)) ∨
        (r.ret = 0 ∧ st.unread ++ bytesOf fd = [] ∧ r.state.unread ++ bytesOf r.fd = [])) := by
  by_cases refill : st.readCnt ≤ 0
  · have spent : st.readCnt = 0 := by have := valid.nonneg; omega
    have nothing : st.unread = [] := ReadState.unread_of_readCnt_eq_zero spent
    obtain ⟨bytes, fd', call, clean', fits, stream, atEnd⟩ :=
      readAgain_clean (by decide : 0 < MAXLINE) clean
    cases bytes with
    | nil =>
        have empty : bytesOf fd = [] := atEnd rfl
        have empty' : bytesOf fd' = [] := stream.trans empty
        have nothing' : ReadState.unread { st with readCnt := 0 } = [] :=
          ReadState.unread_of_readCnt_eq_zero rfl
        exact ⟨_, by simp [myRead, refill, call]; rfl, ⟨valid.size, by simp, by simp⟩, clean',
          .inr ⟨rfl, by simp [nothing, empty], by simp [nothing', empty']⟩⟩
    | cons b bytes =>
        have next := ReadState.unread_refill st.readBuf (b :: bytes)
        obtain ⟨c', st', run, valid', unread⟩ :=
          deliver_spec (valid.refill fits) (by simp) fd'
        refine ⟨_, by simp only [myRead, if_pos refill, call]; exact run, valid', clean',
          .inl ⟨rfl, ?_⟩⟩
        calc st.unread ++ bytesOf fd = (b :: bytes) ++ bytesOf fd' := by simp [nothing, ← stream]
          _ = c' :: (st'.unread ++ bytesOf fd') := by rw [← next, unread]; rfl
  · obtain ⟨b, st', run, valid', unread⟩ := deliver_spec valid (by omega) fd
    exact ⟨_, by rw [myRead, if_neg refill, run], valid', clean, .inl ⟨rfl, by simp [unread]⟩⟩

/-! ## `readline_v3` -/

/-- The loop consumes the next line and returns its count, but every store goes to the
first byte of the caller's buffer, and the last one is the NUL. -/
theorem readlineV3Loop_spec (left : Nat) (n : Int) (c : UInt8) {vptr : Block} {st : ReadState}
    {fd : Script} (room : 0 < vptr.length) (clean : Clean fd) (valid : st.Valid) :
    ∃ line st', readlineV3Loop left n c vptr st fd = .ok (line, st') ∧
      line.ret = lineRet left n (st.unread ++ bytesOf fd) ∧ cString line.vptr = [] ∧
      Clean line.fd ∧ st'.Valid ∧
      st'.unread ++ bytesOf line.fd = dropLine left (st.unread ++ bytesOf fd) := by
  induction left generalizing n c vptr st fd with
  | zero =>
      obtain ⟨old, tail, rfl⟩ := List.exists_cons_of_length_pos room
      refine ⟨⟨n, 0 :: tail, fd⟩, st, rfl, ?_, rfl, clean, valid, ?_⟩
      · cases st.unread ++ bytesOf fd <;> rfl
      · cases st.unread ++ bytesOf fd <;> rfl
  | succ left ih =>
      obtain ⟨old, tail, rfl⟩ := List.exists_cons_of_length_pos room
      have put : ∀ old c, store (old :: tail) 0 c = .ok (c :: tail) :=
        fun old c => store_append_cons [] tail old c
      obtain ⟨r, call, valid', clean', ⟨ret, next⟩ | ⟨ret, empty, empty'⟩⟩ :=
        myRead_spec clean valid c
      · by_cases h : r.c = newline
        · refine ⟨⟨n, 0 :: tail, r.fd⟩, r.state, ?_, ?_, rfl, clean', valid', ?_⟩
          · simp [readlineV3Loop, call, ret, put, h]
          · simp [next, lineRet, h]
          · simp [next, dropLine, h]
        · obtain ⟨line, st', loop, count, contents, clean'', valid'', rest⟩ :=
            ih (n + 1) r.c (show 0 < (r.c :: tail).length by simp) clean' valid'
          refine ⟨line, st', ?_, ?_, contents, clean'', valid'', ?_⟩
          · simpa [readlineV3Loop, call, ret, put, h] using loop
          · simp [next, lineRet, h, count]
          · simp [next, dropLine, h, rest]
      · refine ⟨⟨n - 1, 0 :: tail, r.fd⟩, r.state, ?_, ?_, rfl, clean', valid', ?_⟩
        · simp [readlineV3Loop, call, ret, put]
        · simp [empty, lineRet]
        · simp [empty, empty', dropLine]

end UnixProgramming.Unp
