import UnixProgramming.Library.CString
import UnixProgramming.Library.Sink
import UnixProgramming.FdPassing.Protocol

/-!
# `send_err` of `apue.c`

The text of an error message goes out through `writen`, and its NUL and status byte
through `send_fd`. The check that the error code is negative stands between them.
-/

namespace UnixProgramming.FdPassing

open CMemory Descriptor Fallible

/-- What a call of `writen` leaves behind: its value, the bytes that went out, and the
descriptor. -/
structure Written where
  ret : Int
  wire : List UInt8
  fd : Sink
  deriving DecidableEq

/-- The loop of `writen`, with `nleft` of `n` bytes to write. -/
def writenLoop (n : Nat) (buf : Block) (ptr nleft : Nat) (wire : List UInt8) (fd : Sink) :
    Except Fault Written :=
  if 0 < nleft then do
    let bytes ← loadRange buf ptr nleft
    match _ : write bytes fd with
    | (.error _, fd) => return ⟨if nleft = n then -1 else n - nleft, wire, fd⟩
    | (.ok 0, fd) => return ⟨n - nleft, wire, fd⟩
    | (.ok (k + 1), fd) =>
        writenLoop n buf (ptr + (k + 1)) (nleft - (k + 1)) (wire ++ bytes.take (k + 1)) fd
  else .ok ⟨n - nleft, wire, fd⟩
termination_by nleft

def writen (fd : Sink) (buf : Block) (n : Nat) : Except Fault Written :=
  writenLoop n buf 0 n [] fd

/-- The value of `send_err` and the bytes that it puts on the socket. -/
structure ErrSent where
  ret : Int
  wire : List UInt8
  deriving DecidableEq

/-- `send_err` behind the text: the check of the error code and the status. `cmsghdr` and
`malloc` are for `send_fd`, and `sent` is the result of its `sendmsg`. -/
def sendStatus (cmsghdr malloc : Option Int) (sent errcode : Int) (wire : List UInt8) : ErrSent :=
  if 0 ≤ errcode then ⟨-1, wire⟩
  else
    let (ret, message, _) := sendFd cmsghdr malloc errcode sent
    let wire := wire ++ (message.map Message.bytes).getD []
    if ret < 0 then ⟨-1, wire⟩ else ⟨0, wire⟩

def sendErr (fd : Sink) (cmsghdr malloc : Option Int) (sent errcode : Int) (msg : Block) :
    Except Fault ErrSent := do
  let n := toInt (strlen msg)
  if 0 < n then
    let text ← writen fd msg n.toNat
    if text.ret ≠ n then return ⟨-1, text.wire⟩
    else return sendStatus cmsghdr malloc sent errcode text.wire
  else return sendStatus cmsghdr malloc sent errcode []

/-! ## The text -/

/-- What `writen` sends is a first part of the buffer, and it returns the size of that part or
an error. Without failures that is all it is asked for. -/
theorem writenLoop_spec {n ptr nleft : Nat} {buf : Block} {wire : List UInt8} {fd : Sink}
    (room : ptr + nleft ≤ buf.length) (left : nleft ≤ n) :
    ∃ k r, writenLoop n buf ptr nleft wire fd = .ok r ∧ k ≤ nleft ∧
      r.wire = wire ++ (buf.drop ptr).take k ∧ (r.ret = n - nleft + k ∨ r.ret = -1) ∧
      (Succeeds fd → k = nleft ∧ r.ret = n) := by
  fun_induction writenLoop n buf ptr nleft wire fd with
  | case1 ptr nleft wire fd more ih => 
      have size := length_take_drop room
      have nonempty : (buf.drop ptr).take nleft ≠ [] := List.ne_nil_of_length_pos (size.symm ▸ more)
      rw [loadRange_eq room, ok_bind]
      split
      · rename_i e rest call
        refine ⟨0, _, rfl, Nat.zero_le _, by simp, ?_, fun succeeds => ?_⟩
        · by_cases first : nleft = n <;> simp [first]
        · obtain ⟨count, rest', call', -⟩ := write_succeeds nonempty succeeds
          simp [call] at call'
      · rename_i rest call
        refine ⟨0, _, rfl, Nat.zero_le _, by simp, by simp, fun succeeds => ?_⟩
        obtain ⟨count, rest', call', some, -⟩ := write_succeeds nonempty succeeds
        obtain ⟨rfl, -⟩ : count = 0 ∧ rest' = rest := by simpa [call, eq_comm] using call'
        exact absurd some (lt_irrefl 0)
      · rename_i k rest call
        have fits : k + 1 ≤ nleft := size ▸ count_le_of_write call
        obtain ⟨k', r, run, short, sent, ret, whole⟩ := ih _ k rest (by omega) (by omega)
        refine ⟨k + 1 + k', r, run, by omega, ?_, ?_, fun succeeds => ?_⟩
        · rw [sent, List.append_assoc, List.take_take, min_eq_left fits, ← List.drop_drop,
            ← List.take_add]
        · obtain ret | failed := ret
          · exact .inl (by omega)
          · exact .inr failed
        · obtain ⟨count, rest', call', -, succeeds'⟩ := write_succeeds nonempty succeeds
          obtain ⟨-, rfl⟩ : count = k + 1 ∧ rest' = rest := by simpa [call, eq_comm] using call'
          have := whole succeeds'
          omega
  | case2 ptr nleft wire fd done =>
      obtain rfl : nleft = 0 := by omega
      exact ⟨0, _, rfl, le_rfl, by simp, by simp, by simp⟩

/-- A call of `writen` that returns the count it was given has sent that many bytes, and
without failures it does. -/
theorem writen_spec {n : Nat} {buf : Block} (fd : Sink) (some : 0 < n) (room : n ≤ buf.length) :
    ∃ r, writen fd buf n = .ok r ∧ (r.ret = n → r.wire = buf.take n) ∧
      (Succeeds fd → r.ret = n) := by
  obtain ⟨k, r, run, -, sent, ret, whole⟩ :=
    @writenLoop_spec n 0 n buf [] fd (by rwa [Nat.zero_add]) le_rfl
  refine ⟨r, run, fun all => ?_, fun succeeds => (whole succeeds).2⟩
  obtain rfl : k = n := by omega
  rw [sent, List.nil_append, List.drop_zero]

/-! ## What goes out -/

/-- The text and the trailer of an error message. -/
def errMessage (text : List UInt8) (status : UInt8) : List UInt8 := text ++ [0, status]

theorem statusByte_ne_zero (fdToSend : Int) : statusByte fdToSend ≠ 0 := by
  rw [statusByte]
  split
  · decide
  · assumption

/-- On a socket without failures the text that goes out has the length of the `int`. -/
theorem sendErr_eq {fd : Sink} (succeeds : Succeeds fd) (cmsghdr malloc : Option Int)
    (sent errcode : Int) (msg : Block) :
    sendErr fd cmsghdr malloc sent errcode msg =
      .ok (sendStatus cmsghdr malloc sent errcode (msg.take (toInt (strlen msg)).toNat)) := by
  by_cases text : 0 < toInt (strlen msg)
  · have room : (toInt (strlen msg)).toNat ≤ msg.length := by
      have := toInt_le (strlen msg)
      have := strlen_le msg
      omega
    obtain ⟨r, run, all, whole⟩ := writen_spec fd (by omega) room
    have ret : r.ret = toInt (strlen msg) := (whole succeeds).trans (by omega)
    rw [sendErr, if_pos text, run, ok_bind, if_neg (not_not.mpr ret), all (whole succeeds)]
    rfl
  · rw [sendErr, if_neg text, Int.toNat_of_nonpos (by omega), List.take_zero]
    rfl

/-- The complete error message with value 0, or nothing with value -1. -/
def AllOrNothing (msg : Block) (r : ErrSent) : Prop :=
  (r.ret = 0 ∧ ∃ status, status ≠ 0 ∧ r.wire = errMessage (cString msg) status) ∨
    (r.ret = -1 ∧ r.wire = [])

theorem sendStatus_negative {errcode : Int} (negative : errcode < 0) (cmsghdr malloc : Option Int)
    (wire : List UInt8) :
    sendStatus cmsghdr malloc 2 errcode wire =
      ⟨0, errMessage wire (statusByte errcode)⟩ := by
  rw [sendStatus, if_neg (by omega), sendFd, if_pos negative]
  rfl

/-- A message is complete only with its whole text. -/
theorem complete_iff (msg : Block) (status : UInt8) {k : Nat} (short : k ≤ strlen msg) :
    (∃ status', status' ≠ 0 ∧ errMessage (msg.take k) status = errMessage (cString msg) status') ↔
      status ≠ 0 ∧ k = strlen msg := by
  constructor
  · rintro ⟨status', nonzero, same⟩
    have size : (msg.take k).length = k := List.length_take_of_le (short.trans (strlen_le msg))
    have lengths := congrArg List.length same
    simp only [errMessage, List.length_append, size] at lengths
    obtain ⟨-, trailer⟩ := List.append_inj same (by rw [size]; exact Nat.add_right_cancel lengths)
    obtain rfl : status = status' := by simpa using trailer
    exact ⟨nonzero, Nat.add_right_cancel lengths⟩
  · rintro ⟨nonzero, rfl⟩
    exact ⟨status, nonzero, by rw [take_strlen]⟩

/-- `send_err` is all or nothing exactly if the error code is negative and the length of the
text fits into an `int`, or the error code is not negative and there is no text to send. -/
theorem sendErr_allOrNothing_iff {fd : Sink} (succeeds : Succeeds fd)
    (cmsghdr malloc : Option Int) (errcode : Int) (msg : Block) :
    ∃ r, sendErr fd cmsghdr malloc 2 errcode msg = .ok r ∧
      (AllOrNothing msg r ↔
        errcode < 0 ∧ strlen msg < 2147483648 ∨ 0 ≤ errcode ∧ toInt (strlen msg) ≤ 0) := by
  refine ⟨_, sendErr_eq succeeds cmsghdr malloc 2 errcode msg, ?_⟩
  have bound := toInt_le (strlen msg)
  by_cases negative : errcode < 0
  · have whole := complete_iff msg (statusByte errcode) (k := (toInt (strlen msg)).toNat) (by omega)
    have fits := toInt_eq_iff (strlen msg)
    rw [sendStatus_negative negative, AllOrNothing]
    simp only [true_and, whole, statusByte_ne_zero, ne_eq, not_false_eq_true]
    omega
  · have size : (msg.take (toInt (strlen msg)).toNat).length = (toInt (strlen msg)).toNat :=
      List.length_take_of_le (by have := strlen_le msg; omega)
    have nothing : msg.take (toInt (strlen msg)).toNat = [] ↔ toInt (strlen msg) ≤ 0 := by
      rw [← List.length_eq_zero_iff, size, Int.toNat_eq_zero]
    rw [sendStatus, if_pos (by omega), AllOrNothing, nothing]
    simp [negative, Int.not_lt.mp negative]

/-- A text of two bytes over one short write. -/
theorem sendErr_allOrNothing_hi :
    ∃ r, sendErr [.accept 1] none none 2 (-3) [104, 105, 0] = .ok r ∧
      (AllOrNothing [104, 105, 0] r ↔
        (-3 : Int) < 0 ∧ strlen [104, 105, 0] < 2147483648 ∨
          (0 : Int) ≤ -3 ∧ toInt (strlen [104, 105, 0]) ≤ 0) :=
  sendErr_allOrNothing_iff (by simp [Succeeds]) none none (-3) [104, 105, 0]

/-- The code 1 is rejected with the text already on the socket. -/
theorem sendErr_half_sent :
    sendErr [] none none 2 1 [120, 0] = .ok ⟨-1, [120]⟩ ∧ ¬ AllOrNothing [120, 0] ⟨-1, [120]⟩ := by
  refine ⟨?_, by simp [AllOrNothing]⟩
  rw [sendErr_eq (by simp [Succeeds])]
  rfl

end UnixProgramming.FdPassing
