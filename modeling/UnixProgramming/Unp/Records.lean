import UnixProgramming.Library.Sink
import UnixProgramming.Library.Fallible
import Mathlib.Algebra.Order.Ring.Nat

/-!
# `Readn` and `Writen` of `unp.c`

Both loops keep a pointer and the count that is left, and both count an interrupted
call as one that moves no bytes. Records keep their boundaries when they are read
with the sizes with which they were written.
-/

namespace UnixProgramming.Unp

open CMemory Descriptor Fallible

/-- What a call of `Readn` leaves behind: its value, the caller's buffer and the descriptor. -/
structure Received where
  ret : Int
  vptr : Block
  fd : Script
  deriving DecidableEq

/-- The loop of `Readn`, with `nleft` of `n` bytes to read. -/
def readnLoop (n : Nat) (vptr : Block) (ptr nleft : Nat) (fd : Script) : Except Fault Received :=
  if 0 < nleft then
    match call : read nleft fd with
    -- `nread = 0`
    | (.error .eintr, fd) => readnLoop n vptr ptr nleft fd
    | (.error (.other _), fd) => .ok ⟨-1, vptr, fd⟩
    | (.ok [], fd) => .ok ⟨n - nleft, vptr, fd⟩
    | (.ok (b :: bytes), fd) => do
        let vptr ← storeRange vptr ptr (b :: bytes)
        readnLoop n vptr (ptr + (b :: bytes).length) (nleft - (b :: bytes).length) fd
  else .ok ⟨n - nleft, vptr, fd⟩
termination_by fd.length + nleft
decreasing_by
  · have := length_of_read_error call
    omega
  · have := length_of_read call
    simp only [List.length_cons]
    omega

def readn (fd : Script) (vptr : Block) (n : Nat) : Except Fault Received :=
  readnLoop n vptr 0 n fd

/-- What a call of `Writen` leaves behind: its value, the bytes that went out, and the
descriptor. -/
structure Sent where
  ret : Int
  wire : List UInt8
  fd : Sink
  deriving DecidableEq

/-- The loop of `Writen`, with `nleft` of `n` bytes to write. -/
def writenLoop (n : Nat) (vptr : Block) (ptr nleft : Nat) (wire : List UInt8) (fd : Sink) :
    Except Fault Sent :=
  if 0 < nleft then do
    let bytes ← loadRange vptr ptr nleft
    match call : write bytes fd with
    -- `nwritten = 0`
    | (.error .eintr, fd) => writenLoop n vptr ptr nleft wire fd
    | (.error (.other _), fd) => return ⟨-1, wire, fd⟩
    | (.ok 0, fd) => return ⟨-1, wire, fd⟩
    | (.ok (k + 1), fd) =>
        writenLoop n vptr (ptr + (k + 1)) (nleft - (k + 1)) (wire ++ bytes.take (k + 1)) fd
  else .ok ⟨n - nleft, wire, fd⟩
termination_by fd.length + nleft
decreasing_by
  · have := length_of_write_error call
    omega
  · have := length_of_write call
    omega

def writen (fd : Sink) (vptr : Block) (n : Nat) : Except Fault Sent :=
  writenLoop n vptr 0 n [] fd

/-! ## One call -/

/-- How the loop of `Readn` ends with `nleft` bytes to go, by the items that it takes. It has
filled `front`, and `back` is the rest of the caller's buffer. -/
inductive ReadnSpec (front back : Block) (nleft : Nat) (fd : Script) (r : Received) : Prop
  | full (bytes : List UInt8) (size : bytes.length = nleft)
      (items : itemsOf fd = bytes.map .byte ++ itemsOf r.fd) (ret : r.ret = (front ++ bytes).length)
      (vptr : r.vptr = front ++ bytes ++ back.drop bytes.length)
  | eof (bytes : List UInt8) (short : bytes.length < nleft)
      (items : itemsOf fd = bytes.map .byte ++ .eof :: itemsOf r.fd ∨
        itemsOf fd = bytes.map .byte ∧ r.fd = [])
      (ret : r.ret = (front ++ bytes).length)
      (vptr : r.vptr = front ++ bytes ++ back.drop bytes.length)
  | failed (bytes : List UInt8) (code : Nat) (short : bytes.length < nleft)
      (items : itemsOf fd = bytes.map .byte ++ .error code :: itemsOf r.fd) (ret : r.ret = -1)
      (vptr : r.vptr = front ++ bytes ++ back.drop bytes.length)

namespace ReadnSpec

variable {front back bytes : Block} {nleft : Nat} {fd fd' : Script} {r : Received}

/-- Only the items behind the descriptor matter. -/
theorem congr (h : ReadnSpec front back nleft fd' r) (items : itemsOf fd = itemsOf fd') :
    ReadnSpec front back nleft fd r := by
  cases h with
  | full bytes size items' ret vptr => exact .full bytes size (items.trans items') ret vptr
  | eof bytes short items' ret vptr =>
      rw [← items] at items'
      exact .eof bytes short items' ret vptr
  | failed bytes code short items' ret vptr =>
      exact .failed bytes code short (items.trans items') ret vptr

/-- The bytes of one `read` in front of the rest of the loop. -/
theorem append (h : ReadnSpec (front ++ bytes) (back.drop bytes.length) (nleft - bytes.length)
    fd' r) (fits : bytes.length ≤ nleft) (items : itemsOf fd = bytes.map .byte ++ itemsOf fd') :
    ReadnSpec front back nleft fd r := by
  have regroup (more : List UInt8) :
      front ++ bytes ++ more ++ (back.drop bytes.length).drop more.length =
        front ++ (bytes ++ more) ++ back.drop (bytes ++ more).length := by
    rw [List.drop_drop, ← List.length_append, List.append_assoc front]
  cases h with
  | full more size items' ret vptr =>
      refine .full (bytes ++ more) ?_ ?_ ?_ (vptr.trans (regroup more))
      · rw [List.length_append]
        omega
      · rw [items, items', List.map_append, List.append_assoc]
      · rw [ret, List.append_assoc]
  | eof more short items' ret vptr =>
      refine .eof (bytes ++ more) ?_ ?_ ?_ (vptr.trans (regroup more))
      · rw [List.length_append]
        omega
      · obtain there | ⟨there, rest⟩ := items'
        · exact .inl (by rw [items, there, List.map_append, List.append_assoc])
        · exact .inr ⟨by rw [items, there, List.map_append], rest⟩
      · rw [ret, List.append_assoc]
  | failed more code short items' ret vptr =>
      refine .failed (bytes ++ more) code ?_ ?_ ret (vptr.trans (regroup more))
      · rw [List.length_append]
        omega
      · rw [items, items', List.map_append, List.append_assoc]

end ReadnSpec

theorem readnLoop_spec {n ptr nleft : Nat} {vptr : Block} {fd : Script} (front back : Block)
    (split : vptr = front ++ back) (position : ptr = front.length) (room : nleft ≤ back.length)
    (left : n = front.length + nleft) :
    ∃ r, readnLoop n vptr ptr nleft fd = .ok r ∧ ReadnSpec front back nleft fd r := by
  have here : (n : Int) - nleft = (front ++ []).length := by
    rw [List.append_nil]
    omega
  fun_induction readnLoop n vptr ptr nleft fd generalizing front back with
  | case1 vptr ptr nleft fd more rest call ih =>
      obtain ⟨r, run, spec⟩ := ih front back split position room left here
      exact ⟨r, run, spec.congr (itemsOf_of_interrupted call)⟩
  | case2 vptr ptr nleft fd more code rest call =>
      cases takesItems_of_read more call (by simp) with
      | error items => exact ⟨_, rfl, .failed [] code more items rfl (by simpa using split)⟩
  | case3 vptr ptr nleft fd more rest call =>
      cases takesItems_of_read more call (by simp) with
      | exhausted items =>
          exact ⟨_, rfl, .eof [] more (.inr ⟨items, rfl⟩) here (by simpa using split)⟩
      | eof items => exact ⟨_, rfl, .eof [] more (.inl items) here (by simpa using split)⟩
  | case4 vptr ptr nleft fd more b bytes rest call ih =>
      cases takesItems_of_read more call (by simp) with
      | bytes fits items =>
          rw [storeRange_of_split split position (fits.trans room), ok_bind]
          obtain ⟨r, run, spec⟩ := ih (front ++ (b :: bytes) ++ back.drop (b :: bytes).length)
            (front ++ b :: bytes) (back.drop (b :: bytes).length) rfl (by simp [position])
            (by rw [List.length_drop]; omega) (by rw [List.length_append]; omega)
            (by rw [List.append_nil, List.length_append]; omega)
          exact ⟨r, run, spec.append fits items⟩
  | case5 vptr ptr nleft fd done =>
      obtain rfl : nleft = 0 := by omega
      exact ⟨_, rfl, .full [] rfl rfl here (by simpa using split)⟩

/-- Only the end of the stream makes a call return 0. -/
theorem ReadnSpec.items_of_ret {vptr : Block} {n : Nat} {fd : Script} {r : Received}
    (h : ReadnSpec [] vptr n fd r) (room : 0 < n) (ret : r.ret = 0) :
    itemsOf fd = [] ∨ ∃ items, itemsOf fd = .eof :: items := by
  cases h with
  | full bytes size _ ret' =>
      rw [List.nil_append] at ret'
      omega
  | eof bytes _ items ret' =>
      obtain rfl : bytes = [] := by
        rw [List.nil_append] at ret'
        exact List.length_eq_zero_iff.mp (by omega)
      obtain marked | ⟨all, -⟩ := items
      · exact .inr ⟨_, marked⟩
      · exact .inl all
  | failed bytes code _ _ ret' => omega

/-- A call leaves the size of the buffer as it is. -/
theorem ReadnSpec.length_vptr {vptr : Block} {n : Nat} {fd : Script} {r : Received}
    (h : ReadnSpec [] vptr n fd r) (room : n ≤ vptr.length) : r.vptr.length = vptr.length := by
  have size (bytes : Block) (fits : bytes.length ≤ n) :
      ([] ++ bytes ++ vptr.drop bytes.length).length = vptr.length := by
    rw [List.nil_append, List.length_append, List.length_drop]
    omega
  cases h with
  | full bytes size' _ _ vptr' => exact vptr' ▸ size bytes size'.le
  | eof bytes short _ _ vptr' => exact vptr' ▸ size bytes short.le
  | failed bytes code short _ _ vptr' => exact vptr' ▸ size bytes short.le

/-- With enough bytes in front of the stream the call is full. -/
theorem ReadnSpec.of_front {vptr front : Block} {n : Nat} {fd : Script} {r : Received}
    {items : List Item} (h : ReadnSpec [] vptr n fd r) (size : front.length = n)
    (stream : itemsOf fd = front.map .byte ++ items) :
    r.ret = n ∧ r.vptr = front ++ vptr.drop n ∧ itemsOf r.fd = items := by
  cases h with
  | full bytes size' items' ret vptr' =>
      rw [stream] at items'
      obtain ⟨bytes_eq, behind⟩ := List.append_inj items' (by simp [size, size'])
      obtain rfl := map_byte_inj bytes_eq
      exact ⟨by rw [ret, List.nil_append, size], by rw [vptr', List.nil_append, size], behind.symm⟩
  | eof bytes short items' _ _ =>
      rw [stream] at items'
      obtain marked | ⟨all, -⟩ := items'
      · exact absurd marked (marker_not_in_front (by simp) (size ▸ short))
      · have lengths := congrArg List.length all
        simp only [List.length_append, List.length_map] at lengths
        omega
  | failed bytes code short items' _ _ =>
      rw [stream] at items'
      exact absurd items' (marker_not_in_front (by simp) (size ▸ short))

/-- `Readn` with room in the caller's buffer does not write outside of it. -/
theorem readn_spec {n : Nat} {vptr : Block} (room : n ≤ vptr.length) (fd : Script) :
    ∃ r, readn fd vptr n = .ok r ∧ ReadnSpec [] vptr n fd r :=
  readnLoop_spec [] vptr rfl rfl room (Nat.zero_add n).symm

/-- The loop takes something off the script, unless it ends with the count it began with. -/
theorem readnLoop_progress {n ptr nleft : Nat} {vptr : Block} {fd : Script} {r : Received}
    (run : readnLoop n vptr ptr nleft fd = .ok r) :
    (itemsOf r.fd).length ≤ (itemsOf fd).length ∧
      (r.ret ≠ n - nleft → (itemsOf r.fd).length < (itemsOf fd).length) := by
  fun_induction readnLoop n vptr ptr nleft fd with
  | case1 vptr ptr nleft fd more rest call ih =>
      rw [itemsOf_of_interrupted call]
      exact ih run
  | case2 vptr ptr nleft fd more code rest call =>
      cases run
      cases takesItems_of_read more call (by simp) with
      | error items => simp [items]
  | case3 vptr ptr nleft fd more rest call =>
      cases run
      cases takesItems_of_read more call (by simp) with
      | exhausted items => simp [items, itemsOf]
      | eof items => simp [items]
  | case4 vptr ptr nleft fd more b bytes rest call ih =>
      obtain ⟨vptr', -, run⟩ := bind_ok run
      have less := length_items_of_read more call
      have later := (ih vptr' run).1
      omega
  | case5 vptr ptr nleft fd done =>
      cases run
      exact ⟨le_rfl, fun ret => absurd rfl ret⟩

/-- A call of `Readn` that does not return 0 has taken something off the script. -/
theorem readn_progress {n : Nat} {vptr : Block} {fd : Script} {r : Received}
    (run : readn fd vptr n = .ok r) (ret : r.ret ≠ 0) :
    (itemsOf r.fd).length < (itemsOf fd).length :=
  (readnLoop_progress run).2 (by omega)

/-- A call of `Writen` that only meets short writes and interruptions sends its bytes. -/
theorem writenLoop_spec {n ptr nleft : Nat} {vptr : Block} {wire : List UInt8} {fd : Sink}
    (room : ptr + nleft ≤ vptr.length) (left : n = ptr + nleft) (clean : CleanSink fd) :
    ∃ fd', writenLoop n vptr ptr nleft wire fd =
      .ok ⟨n, wire ++ (vptr.drop ptr).take nleft, fd'⟩ ∧ CleanSink fd' := by
  fun_induction writenLoop n vptr ptr nleft wire fd with
  | case1 ptr nleft wire fd more ihInterrupted ihTaken =>
      have size := length_take_drop room
      have nonempty : (vptr.drop ptr).take nleft ≠ [] :=
        List.ne_nil_of_length_pos (size.symm ▸ more)
      have spec := write_clean nonempty clean
      rw [loadRange_eq room, ok_bind]
      split
      · rename_i rest call
        rw [call] at spec
        cases spec with
        | interrupted clean' => exact ihInterrupted _ rest call room left clean'
      · rename_i code rest call
        rw [call] at spec
        cases spec
      · rename_i rest call
        rw [call] at spec
        cases spec with
        | taken some => exact absurd some (lt_irrefl 0)
      · rename_i k rest call
        rw [call] at spec
        cases spec with
        | taken some fits clean' =>
            rw [size] at fits
            obtain ⟨fd', run, last⟩ := ihTaken _ k rest call (by omega) (by omega) clean'
            refine ⟨fd', run.trans ?_, last⟩
            -- the two parts of what is left
            rw [List.append_assoc, List.take_take, min_eq_left fits, ← List.drop_drop,
              ← List.take_add, Nat.add_sub_cancel' fits]
  | case2 ptr nleft wire fd done =>
      obtain rfl : nleft = 0 := by omega
      exact ⟨fd, by simp, clean⟩

theorem writen_spec {n : Nat} {vptr : Block} {fd : Sink} (room : n ≤ vptr.length)
    (clean : CleanSink fd) :
    ∃ fd', writen fd vptr n = .ok ⟨n, vptr.take n, fd'⟩ ∧ CleanSink fd' := by
  simpa [writen] using
    @writenLoop_spec n 0 n vptr [] fd (by simpa using room) (Nat.zero_add n).symm clean

/-! ## Sequences of records -/

structure ReadnCall where
  n : Nat
  vptr : Block

/-- Successive calls of `Readn`: the value and the buffer of each. -/
def readRecords (fd : Script) : List ReadnCall → Except Fault (List (Int × Block) × Script)
  | [] => .ok ([], fd)
  | call :: calls => do
      let r ← readn fd call.vptr call.n
      let (results, fd) ← readRecords r.fd calls
      return ((r.ret, r.vptr) :: results, fd)

/-- Successive calls of `Writen`: the value of each and what goes out in all. -/
def writeRecords (fd : Sink) : List Block → Except Fault (List Int × List UInt8 × Sink)
  | [] => .ok ([], [], fd)
  | record :: records => do
      let s ← writen fd record record.length
      let (rets, wire, fd) ← writeRecords s.fd records
      return (s.ret :: rets, s.wire ++ wire, fd)

/-- A stream cut at the given sizes, as far as it goes. -/
def frames : List Nat → List UInt8 → List Block
  | [], _ => []
  | n :: sizes, bytes => bytes.take n :: frames sizes (bytes.drop n)

/-- The call stores these bytes, returns their number and leaves the rest of its buffer. -/
def ReadnCall.stored (call : ReadnCall) (bytes : Block) : Int × Block :=
  (bytes.length, bytes ++ call.vptr.drop bytes.length)

/-- On a stream of bytes a call takes the next ones, as many as there are. -/
theorem ReadnSpec.of_bytes {call : ReadnCall} {fd : Script} {r : Received} {bytes : List UInt8}
    (h : ReadnSpec [] call.vptr call.n fd r) (items : itemsOf fd = bytes.map .byte) :
    (r.ret, r.vptr) = call.stored (bytes.take call.n) ∧
      itemsOf r.fd = (bytes.drop call.n).map .byte := by
  cases h with
  | full taken size items' ret vptr =>
      rw [items] at items'
      have front : bytes.take call.n = taken := by
        apply map_byte_inj
        rw [List.map_take, items', ← size, List.take_left' (List.length_map _)]
      have behind : (bytes.drop call.n).map .byte = itemsOf r.fd := by
        rw [List.map_drop, items', ← size, List.drop_left' (List.length_map _)]
      rw [front, ret, vptr]
      exact ⟨rfl, behind.symm⟩
  | eof taken short items' ret vptr =>
      obtain marked | ⟨all, rest⟩ := items'
      · have mem : Item.eof ∈ bytes.map Item.byte := by
          rw [← items, marked]
          simp
        simp at mem
      · obtain rfl : bytes = taken := map_byte_inj (items.symm.trans all)
        rw [List.take_of_length_le short.le, List.drop_eq_nil_of_le short.le, ret, vptr, rest]
        exact ⟨rfl, rfl⟩
  | failed taken code short items' ret vptr =>
      have mem : Item.error code ∈ bytes.map Item.byte := by
        rw [← items, items']
        simp
      simp at mem

/-- Successive calls cut the stream at their sizes. -/
theorem readRecords_spec {fd : Script} {calls : List ReadnCall} {bytes : List UInt8}
    (room : ∀ call ∈ calls, call.n ≤ call.vptr.length) (items : itemsOf fd = bytes.map .byte) :
    ∃ fd', readRecords fd calls =
        .ok (calls.zipWith ReadnCall.stored (frames (calls.map ReadnCall.n) bytes), fd') ∧
      itemsOf fd' = (bytes.drop (calls.map ReadnCall.n).sum).map .byte := by
  induction calls generalizing fd bytes with
  | nil => exact ⟨fd, rfl, items⟩
  | cons call calls ih =>
      obtain ⟨here, later⟩ := List.forall_mem_cons.mp room
      obtain ⟨r, run, spec⟩ := readn_spec here fd
      obtain ⟨stored, behind⟩ := spec.of_bytes items
      obtain ⟨fd', run', last⟩ := ih later behind
      refine ⟨fd', ?_, ?_⟩
      · rw [readRecords, run, ok_bind, run', ok_bind, stored]
        rfl
      · rw [last, List.drop_drop, List.map_cons, List.sum_cons]

theorem writeRecords_spec {fd : Sink} (records : List Block) (clean : CleanSink fd) :
    ∃ fd', writeRecords fd records =
      .ok (records.map fun record => (record.length : Int), records.flatten, fd') := by
  induction records generalizing fd with
  | nil => exact ⟨fd, rfl⟩
  | cons record records ih =>
      obtain ⟨fd₁, run, clean₁⟩ := writen_spec (le_refl record.length) clean
      obtain ⟨fd', run'⟩ := ih clean₁
      refine ⟨fd', ?_⟩
      rw [writeRecords, run, ok_bind, run', ok_bind, List.take_length]
      rfl

/-! ## Framing -/

theorem frames_nil (sizes : List Nat) : frames sizes [] = sizes.map fun _ => [] := by
  induction sizes with
  | nil => rfl
  | cons n sizes ih => rw [frames, List.take_nil, List.drop_nil, ih, List.map_cons]

/-- Whole records in front come back as they are. -/
theorem frames_append (records : List Block) (sizes : List Nat) (bytes : List UInt8) :
    frames (records.map List.length ++ sizes) (records.flatten ++ bytes) =
      records ++ frames sizes bytes := by
  induction records with
  | nil => rfl
  | cons record records ih =>
      rw [List.map_cons, List.cons_append, List.flatten_cons, List.append_assoc, frames,
        List.take_left, List.drop_left, ih, List.cons_append]

/-- A stream that ends inside a record. -/
theorem frames_cut {records : List Block} {part record : Block} (rest : List Block)
    (inside : part <+: record) :
    frames ((records ++ record :: rest).map List.length) (records.flatten ++ part) =
      records ++ part :: rest.map fun _ => [] := by
  rw [List.map_append, frames_append, List.map_cons, frames,
    List.take_of_length_le inside.length_le, List.drop_eq_nil_of_le inside.length_le, frames_nil,
    List.map_map]
  rfl

theorem flatten_frames (sizes : List Nat) (bytes : List UInt8) :
    (frames sizes bytes).flatten ++ bytes.drop sizes.sum = bytes := by
  induction sizes generalizing bytes with
  | nil => rfl
  | cons n sizes ih =>
      rw [frames, List.flatten_cons, List.sum_cons, List.append_assoc, ← List.drop_drop, ih,
        List.take_append_drop]

theorem map_length_frames {sizes : List Nat} {bytes : List UInt8}
    (enough : sizes.sum ≤ bytes.length) : (frames sizes bytes).map List.length = sizes := by
  induction sizes generalizing bytes with
  | nil => rfl
  | cons n sizes ih =>
      rw [List.sum_cons] at enough
      have later : sizes.sum ≤ (bytes.drop n).length := by
        rw [List.length_drop]
        omega
      rw [frames, List.map_cons, List.length_take, ih later, min_eq_left (by omega)]

/-- `Writen` and `Readn` keep records apart. Each `Writen` returns the size of its record. If
the reader gets the whole stream, each `Readn` gets its record. If the stream ends inside a
record, the call for it gets the bytes that remained, and later calls get none. -/
theorem records_framed {writer : Sink} {reader : Script} {records : List Block}
    {calls : List ReadnCall} (cleanWriter : CleanSink writer) (cleanReader : Clean reader)
    (sizes : calls.map ReadnCall.n = records.map List.length)
    (room : ∀ call ∈ calls, call.n ≤ call.vptr.length) :
    (∃ writer', writeRecords writer records =
      .ok (records.map fun record => (record.length : Int), records.flatten, writer')) ∧
    (bytesOf reader = records.flatten →
      ∃ reader', readRecords reader calls = .ok (calls.zipWith ReadnCall.stored records, reader') ∧
        bytesOf reader' = []) ∧
    ∀ whole record rest part, records = whole ++ record :: rest → part <+: record →
      bytesOf reader = whole.flatten ++ part →
      ∃ reader', readRecords reader calls =
        .ok (calls.zipWith ReadnCall.stored (whole ++ part :: rest.map fun _ => []), reader') ∧
        bytesOf reader' = [] := by
  obtain ⟨reader', run, behind⟩ := readRecords_spec room (itemsOf_clean cleanReader)
  rw [sizes] at run behind
  refine ⟨writeRecords_spec records cleanWriter, ?_, ?_⟩
  · intro stream
    have cut := frames_append records [] []
    simp only [List.append_nil] at cut
    rw [stream] at run behind
    refine ⟨reader', by rw [run, cut]; simp [frames], ?_⟩
    rw [bytesOf_eq_flatMap, behind, ← List.length_flatten, List.drop_length]
    rfl
  · rintro whole record rest part rfl inside stream
    have short : (whole.flatten ++ part).length ≤
        ((whole ++ record :: rest).map List.length).sum := by
      rw [← List.length_flatten, List.flatten_append, List.flatten_cons]
      simp only [List.length_append]
      have := inside.length_le
      omega
    rw [stream] at run behind
    refine ⟨reader', by rw [run, frames_cut rest inside], ?_⟩
    rw [bytesOf_eq_flatMap, behind, List.drop_eq_nil_of_le short]
    rfl

/-- Two records with a short write, a short read and an interruption on each side. -/
theorem records_framed_two :
    (∃ writer', writeRecords [.accept 1, .fail .eintr] [[1, 2], [3]] =
      .ok ([2, 1], [1, 2, 3], writer')) ∧
    ∃ reader', readRecords [.data [1], .fail .eintr, .data [2, 3]] [⟨2, [0, 0, 0]⟩, ⟨1, [0]⟩] =
      .ok ([(2, [1, 2, 0]), (1, [3])], reader') ∧ bytesOf reader' = [] := by
  have framed := @records_framed [.accept 1, .fail .eintr] [.data [1], .fail .eintr, .data [2, 3]]
    [[1, 2], [3]] [⟨2, [0, 0, 0]⟩, ⟨1, [0]⟩] (by decide) (by decide) rfl (by decide)
  exact ⟨framed.1, framed.2.1 rfl⟩

end UnixProgramming.Unp
