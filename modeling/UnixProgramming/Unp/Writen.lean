import UnixProgramming.Unp.Records

/-!
# `Writen` on a socket that may fail

The calls of `write` decide alone how many bytes go out. `Writen` returns the count or -1,
so a caller that looks at its value only learns whether that is all of them.
-/

namespace UnixProgramming.Unp

open CMemory Descriptor Fallible

/-- The number of bytes that go out of a call for `n` bytes. -/
def sends : Sink → Nat → Nat
  | [], n => n
  | .fail .eintr :: fd, n => sends fd n
  | .fail (.other _) :: _, _ => 0
  | .accept count :: fd, n =>
      let nwritten := min count n
      if nwritten = 0 then 0 else nwritten + sends fd (n - nwritten)

theorem sends_le (fd : Sink) (n : Nat) : sends fd n ≤ n := by
  fun_induction sends fd n with
  | case1 n => exact le_rfl
  | case2 fd n ih => exact ih
  | case3 code fd n => exact Nat.zero_le n
  | case4 count fd n nwritten none => exact Nat.zero_le n
  | case5 count fd n nwritten some ih =>
      have : nwritten ≤ n := min_le_right count n
      omega

@[simp] theorem sends_zero (fd : Sink) : sends fd 0 = 0 := Nat.le_zero.mp (sends_le fd 0)

theorem sends_of_interrupted {bytes : List UInt8} {fd rest : Sink} {n : Nat}
    (call : write bytes fd = (.error .eintr, rest)) : sends fd n = sends rest n := by
  match fd, call with
  | .fail .eintr :: _, rfl => rfl

theorem sends_of_error {bytes : List UInt8} {fd rest : Sink} {code n : Nat}
    (call : write bytes fd = (.error (.other code), rest)) : sends fd n = 0 := by
  match fd, call with
  | .fail (.other _) :: _, rfl => rfl

theorem sends_of_zero {bytes : List UInt8} {fd rest : Sink}
    (call : write bytes fd = (.ok 0, rest)) : sends fd bytes.length = 0 := by
  match fd with
  | [] => exact congrArg (fun r => r.1.toOption.getD 0) call
  | .accept count :: fd =>
      have none : min count bytes.length = 0 := congrArg (fun r => r.1.toOption.getD 0) call
      rw [sends, if_pos none]

/-- One call of `write`, and what it leaves for the next one. -/
theorem sends_of_write {bytes : List UInt8} {fd rest : Sink} {k : Nat}
    (call : write bytes fd = (.ok (k + 1), rest)) :
    sends fd bytes.length = k + 1 + sends rest (bytes.length - (k + 1)) := by
  match fd with
  | [] =>
      simp only [write, Prod.mk.injEq, Except.ok.injEq] at call
      obtain ⟨all, rfl⟩ := call
      rw [all, Nat.sub_self, sends_zero]
      rfl
  | .accept count :: fd =>
      simp only [write, Prod.mk.injEq, Except.ok.injEq] at call
      obtain ⟨taken, rfl⟩ := call
      rw [sends, taken, if_neg (Nat.succ_ne_zero k)]

/-- The value is `n` if and only if all bytes have gone out. -/
def returned (fd : Sink) (n nleft : Nat) : Int := if sends fd nleft = nleft then n else -1

theorem writenLoop_sends {n ptr nleft : Nat} {vptr : Block} {wire : List UInt8} {fd : Sink}
    (room : ptr + nleft ≤ vptr.length) (left : n = ptr + nleft) :
    ∃ fd', writenLoop n vptr ptr nleft wire fd =
      .ok ⟨returned fd n nleft, wire ++ (vptr.drop ptr).take (sends fd nleft), fd'⟩ := by
  fun_induction writenLoop n vptr ptr nleft wire fd with
  | case1 ptr nleft wire fd more ihInterrupted ihTaken =>
      have size := length_take_drop room
      rw [loadRange_eq room, ok_bind]
      split
      · rename_i rest call
        obtain ⟨fd', run⟩ := ihInterrupted _ rest call room left
        refine ⟨fd', run.trans ?_⟩
        rw [returned, returned, sends_of_interrupted call]
      · rename_i code rest call
        rw [returned, ← size, sends_of_error call, size]
        exact ⟨rest, by simp [Nat.ne_of_lt more]⟩
      · rename_i rest call
        rw [returned, ← size, sends_of_zero call, size]
        exact ⟨rest, by simp [Nat.ne_of_lt more]⟩
      · rename_i k rest call
        have fits := count_le_of_write call
        have split := sends_of_write call
        rw [size] at fits split
        obtain ⟨fd', run⟩ := ihTaken _ k rest call (by omega) (by omega)
        have less := sends_le rest (nleft - (k + 1))
        refine ⟨fd', run.trans ?_⟩
        -- the two parts of what goes out
        rw [returned, returned, split, List.append_assoc, List.take_take, min_eq_left fits,
          ← List.drop_drop, ← List.take_add]
        simp
        omega
  | case2 ptr nleft wire fd done =>
      obtain rfl : nleft = 0 := by omega
      exact ⟨fd, by simp [returned]⟩

theorem writen_sends (fd : Sink) {n : Nat} {vptr : Block} (room : n ≤ vptr.length) :
    ∃ fd', writen fd vptr n = .ok ⟨returned fd n n, vptr.take (sends fd n), fd'⟩ := by
  simpa [writen] using
    @writenLoop_sends n 0 n vptr [] fd (by simpa using room) (Nat.zero_add n).symm

end UnixProgramming.Unp
