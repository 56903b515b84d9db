import UnixProgramming.Library.Fallible
import UnixProgramming.Library.Sink
import UnixProgramming.Library.Transfer

/-!
# `readn` and `writen` of `apue.c`

Both functions loop over `read` and `write` until `n` bytes have been moved. They report the
bytes that were moved before an error, and they return `-1` when there are none. The results of
the calls are recorded next to what the source computes. The `n` bytes lie in one object, so
counts fit into `ssize_t`.
-/

namespace UnixProgramming.Apue

open CMemory Descriptor Fallible Transfer

/-- What `readn` leaves behind: its value, the caller's buffer and the descriptor, and the
results of its calls of `read`. -/
structure Received where
  ret : Int
  buf : Block
  fd : Script
  calls : List (Except Errno (List UInt8))
  deriving DecidableEq

namespace Received

/-- One more call in front of those of the rest of the loop. -/
def after (r : Received) (call : Except Errno (List UInt8)) : Received :=
  ⟨r.ret, r.buf, r.fd, call :: r.calls⟩

/-- The bytes that the calls have returned, in order. -/
def bytes (r : Received) : List UInt8 := r.calls.flatMap fun call => call.toOption.getD []

def counts (r : Received) : List (Except Errno Nat) := r.calls.map (·.map List.length)

@[simp] theorem bytes_after (r : Received) (bytes : List UInt8) :
    (r.after (.ok bytes)).bytes = bytes ++ r.bytes := rfl

theorem length_flatMap_calls (calls : List (Except Errno (List UInt8))) :
    (calls.flatMap fun call => call.toOption.getD []).length =
      moved (calls.map (·.map List.length)) := by
  induction calls with
  | nil => rfl
  | cons call calls ih =>
      rw [List.flatMap_cons, List.length_append, ih]
      cases call <;> rfl

theorem length_bytes (r : Received) : r.bytes.length = moved r.counts :=
  length_flatMap_calls r.calls

@[simp] theorem counts_after (r : Received) (bytes : List UInt8) :
    (r.after (.ok bytes)).counts = .ok bytes.length :: r.counts := rfl

end Received

/-- The loop of `readn`. The buffer is filled up to `ptr`, and `nleft` of `n` bytes are to go. -/
def readnLoop (n : Nat) (buf : Block) (ptr nleft : Nat) (fd : Script) : Except Fault Received :=
  if 0 < nleft then
    match read nleft fd with
    | (.error e, fd) =>
        if nleft = n then return ⟨-1, buf, fd, [.error e]⟩
        else return ⟨n - nleft, buf, fd, [.error e]⟩
    | (.ok [], fd) => return ⟨n - nleft, buf, fd, [.ok []]⟩
    | (.ok (b :: bytes), fd) => do
        let buf ← storeRange buf ptr (b :: bytes)
        let r ← readnLoop n buf (ptr + (b :: bytes).length) (nleft - (b :: bytes).length) fd
        return r.after (.ok (b :: bytes))
  else return ⟨n - nleft, buf, fd, []⟩
termination_by nleft
decreasing_by
  simp only [List.length_cons]
  omega

def readn (fd : Script) (buf : Block) (n : Nat) : Except Fault Received := readnLoop n buf 0 n fd

/-- What `writen` leaves behind: its value, the bytes that went out and the descriptor, and the
results of its calls of `write`. -/
structure Sent where
  ret : Int
  wire : List UInt8
  fd : Sink
  calls : List (Except Errno Nat)
  deriving DecidableEq

/-- One more call, which took `bytes`, in front of those of the rest of the loop. -/
def Sent.after (r : Sent) (bytes : List UInt8) : Sent :=
  ⟨r.ret, bytes ++ r.wire, r.fd, .ok bytes.length :: r.calls⟩

/-- The loop of `writen`. -/
def writenLoop (n : Nat) (buf : Block) (ptr nleft : Nat) (fd : Sink) : Except Fault Sent :=
  if 0 < nleft then do
    let bytes ← loadRange buf ptr nleft
    match write bytes fd with
    | (.error e, fd) =>
        if nleft = n then return ⟨-1, [], fd, [.error e]⟩
        else return ⟨n - nleft, [], fd, [.error e]⟩
    -- write failed
    | (.ok 0, fd) => return ⟨n - nleft, [], fd, [.ok 0]⟩
    | (.ok (k + 1), fd) => do
        let r ← writenLoop n buf (ptr + (k + 1)) (nleft - (k + 1)) fd
        return r.after (bytes.take (k + 1))
  else return ⟨n - nleft, [], fd, []⟩
termination_by nleft

def writen (fd : Sink) (buf : Block) (n : Nat) : Except Fault Sent := writenLoop n buf 0 n fd

/-! ## The bytes that are moved -/

/-- How the loop of `readn` ends, with `front` filled and `back` behind it. -/
structure Receives (n nleft : Nat) (front back : Block) (fd : Script) (r : Received) : Prop where
  run : Run n nleft r.counts r.ret
  reads : Reads nleft fd r.calls r.fd
  buf : r.buf = front ++ r.bytes ++ back.drop r.bytes.length
  stream : bytesOf fd = r.bytes ++ bytesOf r.fd

/-- The loop ends with a call that moves nothing. -/
theorem Receives.last {n nleft : Nat} {front back buf : Block} {fd rest : Script} {ret : Int}
    {call : Except Errno (List UInt8)} (run : Run n nleft [call.map List.length] ret)
    (split : buf = front ++ back) (result : read nleft fd = (call, rest))
    (empty : call.toOption.getD [] = []) :
    Receives n nleft front back fd ⟨ret, buf, rest, [call]⟩ := by
  have stream := (bytesOf_of_read result).1
  have bytes : Received.bytes ⟨ret, buf, rest, [call]⟩ = [] := by
    simp [Received.bytes, empty]
  rw [empty] at stream
  exact ⟨run, .call result .stop, by simpa [bytes] using split, by rw [bytes]; exact stream⟩

theorem readnLoop_spec {n ptr nleft : Nat} {buf : Block} {fd : Script} (front back : Block)
    (split : buf = front ++ back) (position : ptr = front.length) (room : nleft ≤ back.length)
    (left : n = front.length + nleft) :
    ∃ r, readnLoop n buf ptr nleft fd = .ok r ∧ Receives n nleft front back fd r := by
  fun_induction readnLoop n buf ptr nleft fd generalizing front back with
  | case1 buf ptr fd e rest more call =>
      exact ⟨_, rfl, .last (.failedFirst e more) split call rfl⟩
  | case2 buf ptr nleft fd more e rest call later =>
      exact ⟨_, rfl, .last (.failed e more later) split call rfl⟩
  | case3 buf ptr nleft fd more rest call =>
      exact ⟨_, rfl, .last (.nothing more) split call rfl⟩
  | case4 buf ptr nleft fd more b bytes rest call ih =>
      obtain ⟨stream, fits⟩ := bytesOf_of_read call
      have fits : (b :: bytes).length ≤ nleft := fits
      rw [storeRange_of_split split position (fits.trans room), ok_bind]
      obtain ⟨r, run, spec⟩ := ih _ (front ++ b :: bytes) (back.drop (b :: bytes).length) rfl
        (by simp [position]) (by rw [List.length_drop]; omega)
        (by rw [List.length_append]; omega)
      rw [run, ok_bind]
      refine ⟨_, rfl, ?_, ?_, ?_, ?_⟩
      · exact .part (by simp) fits spec.run
      · exact .call call spec.reads
      · rw [Received.bytes_after, List.length_append, ← List.drop_drop, ← List.append_assoc]
        exact spec.buf
      · rw [Received.bytes_after, stream, spec.stream, List.append_assoc]
        rfl
  | case5 buf ptr nleft fd done =>
      obtain rfl : nleft = 0 := by omega
      exact ⟨_, rfl, by simpa [Received.counts] using Run.done, .stop,
        by simpa [Received.bytes] using split, rfl⟩

theorem readn_spec {n : Nat} {buf : Block} (room : n ≤ buf.length) (fd : Script) :
    ∃ r, readn fd buf n = .ok r ∧ Receives n n [] buf fd r :=
  readnLoop_spec [] buf rfl rfl room (Nat.zero_add n).symm

/-- The loop of `writen` sends what lies behind `ptr`, as far as its calls take it. -/
theorem writenLoop_spec {n ptr nleft : Nat} {buf : Block} {fd : Sink}
    (room : ptr + nleft ≤ buf.length) (left : n = ptr + nleft) :
    ∃ r, writenLoop n buf ptr nleft fd = .ok r ∧ Run n nleft r.calls r.ret ∧
      Writes ((buf.drop ptr).take nleft) fd r.calls r.fd ∧
      r.wire = (buf.drop ptr).take (moved r.calls) := by
  fun_induction writenLoop n buf ptr nleft fd with
  | case1 ptr nleft fd more ih =>
      have size := length_take_drop room
      rw [loadRange_eq room, ok_bind]
      split
      · rename_i e rest call
        split
        · rename_i first
          subst first
          exact ⟨_, rfl, .failedFirst e more, .call call .stop, by simp⟩
        · rename_i later
          exact ⟨_, rfl, .failed e more later, .call call .stop, by simp⟩
      · rename_i rest call
        exact ⟨_, rfl, .nothing more, .call call .stop, by simp⟩
      · rename_i k rest call
        have fits := count_le_of_write call
        rw [size] at fits
        obtain ⟨r, run, calls, writes, wire⟩ := ih k rest (by omega) (by omega)
        have count : (((buf.drop ptr).take nleft).take (k + 1)).length = k + 1 := by
          rw [List.length_take, size]
          omega
        rw [run, ok_bind]
        rw [← List.drop_drop, ← List.drop_take] at writes
        refine ⟨_, rfl, ?_, ?_, ?_⟩
        · rw [Sent.after, count]
          exact .part (Nat.succ_pos k) fits calls
        · rw [Sent.after, count]
          exact .call call writes
        · -- the two parts of what is sent
          rw [Sent.after, wire, count, moved_ok, List.take_take, min_eq_left fits,
            ← List.drop_drop, ← List.take_add]
  | case2 ptr nleft fd done =>
      obtain rfl : nleft = 0 := by omega
      exact ⟨_, rfl, by simpa using Run.done, .stop, by simp⟩

theorem writen_spec {n : Nat} {buf : Block} (room : n ≤ buf.length) (fd : Sink) :
    ∃ r, writen fd buf n = .ok r ∧ Run n n r.calls r.ret ∧
      Writes (buf.take n) fd r.calls r.fd ∧ r.wire = buf.take (moved r.calls) :=
  @writenLoop_spec n 0 n buf fd (by simpa using room) (Nat.zero_add n).symm

/-- What a call of `readn` or `writen` reports is what it has moved, whatever its calls of `read`
and `write` return. The calls are those that the descriptor answers, in turn and each for what is
left, and the loop goes on exactly until `n` bytes are there or a call has stopped it. -/
theorem readn_writen_account {n : Nat} {buf : Block} (room : n ≤ buf.length) :
    (∀ fd : Script, ∃ r, readn fd buf n = .ok r ∧ Reads n fd r.calls r.fd ∧
      Accounts n r.counts r.ret ∧ r.bytes.length = moved r.counts ∧
      r.buf = r.bytes ++ buf.drop r.bytes.length ∧ bytesOf fd = r.bytes ++ bytesOf r.fd) ∧
    ∀ fd : Sink, ∃ r, writen fd buf n = .ok r ∧ Writes (buf.take n) fd r.calls r.fd ∧
      Accounts n r.calls r.ret ∧ r.wire = buf.take (moved r.calls) := by
  constructor
  · intro fd
    obtain ⟨r, run, spec⟩ := readn_spec room fd
    exact ⟨r, run, spec.reads, spec.run.accounts, r.length_bytes, spec.buf, spec.stream⟩
  · intro fd
    obtain ⟨r, run, calls, writes, wire⟩ := writen_spec room fd
    exact ⟨r, run, writes, calls.accounts, wire⟩

/-- An error behind two bytes, and a zero write behind three. -/
theorem readn_writen_account_partial :
    (∃ r, readn [.data [1, 2], .fail .eintr] [0, 0, 0, 0] 4 = .ok r ∧
      Reads 4 [.data [1, 2], .fail .eintr] r.calls r.fd ∧ Accounts 4 r.counts r.ret) ∧
    ∃ r, writen [.accept 3, .accept 0] [1, 2, 3, 4] 4 = .ok r ∧
      Writes [1, 2, 3, 4] [.accept 3, .accept 0] r.calls r.fd ∧ Accounts 4 r.calls r.ret ∧
      r.wire = [1, 2, 3, 4].take (moved r.calls) := by
  have readRoom : 4 ≤ ([0, 0, 0, 0] : Block).length := by decide
  have writeRoom : 4 ≤ ([1, 2, 3, 4] : Block).length := by decide
  obtain ⟨r, run, reads, received, -⟩ :=
    (readn_writen_account readRoom).1 [.data [1, 2], .fail .eintr]
  exact ⟨⟨r, run, reads, received⟩, (readn_writen_account writeRoom).2 [.accept 3, .accept 0]⟩

end UnixProgramming.Apue
