import UnixProgramming.FdPassing.SendErr
import UnixProgramming.FdPassing.Verdict

/-!
# Error messages from `send_err` to `recv_fd`

The receive buffer holds one byte. The text reaches the callback byte by byte, and then
the NUL comes in a buffer of its own, where it is not the last byte but one. So the
receiver stops in front of the status, whatever it is.
-/

namespace UnixProgramming.FdPassing

open CMemory Descriptor Fallible

/-! ## The receiver byte by byte -/

/-- The text of a message passes through the callback, and its NUL ends the call. -/
theorem recvFdLoop_errMessage {userfunc : Block → Int} {malloc cmsghdr : Option Int} (buf : Block)
    {status : Int} (newfd : Int) (passed : List Block) {text : List UInt8} {trailer : UInt8}
    {chunks : List (List UInt8)} {overread : Bool} (consumes : ∀ b, userfunc b = b.length)
    (alloc : allocCmsghdr cmsghdr malloc ≠ none) (waiting : status ≤ 0) (plain : 0 ∉ text)
    (cuts : Cuts chunks (errMessage text trailer)) :
    ∃ texts overread', texts.flatten = text ∧
      recvFdLoop userfunc malloc cmsghdr buf status newfd passed overread
        (chunks.map (.data · none)) = ⟨.noValue, passed ++ texts, overread'⟩ := by
  induction text generalizing cmsghdr buf passed overread chunks with
  | nil =>
      obtain ⟨rest, rfl⟩ := cuts.first
      have reject := @verdict_misplaced [] [] (by simp) (by simp) none
      obtain ⟨overread', run⟩ := @recvFdLoop_reject userfunc malloc cmsghdr overread _ none buf
        status newfd passed (rest.map (.data · none)) (by simp) alloc reject
      refine ⟨[], overread', rfl, ?_⟩
      rw [List.append_nil]
      exact run
  | cons c text ih =>
      obtain ⟨rest, rfl⟩ := cuts.first
      have plainByte : 0 ∉ [c] := fun mem => plain (List.mem_singleton.mp mem ▸ List.mem_cons_self)
      obtain ⟨cmsghdr', overread₁, alloc', step⟩ :=
        @recvFdLoop_text userfunc malloc cmsghdr status overread [c] none buf newfd passed
          (rest.map (.data · none)) (List.cons_ne_nil c []) alloc plainByte waiting
      rw [if_pos (consumes [c])] at step
      obtain ⟨texts, overread', flat, run⟩ := ih (fill buf [c]) (passed ++ [[c]]) alloc'
        (fun mem => plain (List.mem_cons_of_mem c mem)) cuts.tail
      refine ⟨[c] :: texts, overread', by rw [List.flatten_cons, flat, List.singleton_append], ?_⟩
      rw [List.map_cons, step, run, List.append_assoc, List.singleton_append]

/-! ## The sender -/

/-- With value 0 the trailer stands behind the text. -/
theorem wire_of_sendStatus {cmsghdr malloc : Option Int} {sent errcode : Int} {wire : List UInt8}
    (ret : (sendStatus cmsghdr malloc sent errcode wire).ret = 0) :
    ∃ trailer, (sendStatus cmsghdr malloc sent errcode wire).wire = errMessage wire trailer := by
  unfold sendStatus at ret ⊢
  split at ret
  · cases ret
  · rename_i negative
    rw [if_neg negative]
    rw [sendFd, if_pos (Int.not_le.mp negative)] at ret ⊢
    dsimp only at ret ⊢
    by_cases whole : sent = 2
    · exact ⟨statusByte errcode, by simp [whole, errMessage]⟩
    · simp [whole] at ret

/-- With value 0 the sender has put a message on the socket. -/
theorem message_of_sendErr {fd : Sink} {cmsghdr malloc : Option Int} {sent errcode : Int}
    {msg : Block} {r : ErrSent} (run : sendErr fd cmsghdr malloc sent errcode msg = .ok r)
    (ret : r.ret = 0) : ∃ text trailer, 0 ∉ text ∧ r.wire = errMessage text trailer := by
  have bound := toInt_le (strlen msg)
  rw [sendErr] at run
  split at run
  · rename_i text
    have short : (toInt (strlen msg)).toNat ≤ strlen msg := by omega
    obtain ⟨w, sentText, all, -⟩ := writen_spec fd (by omega) (short.trans (strlen_le msg))
    rw [sentText, ok_bind] at run
    split at run
    · cases run
      cases ret
    · rename_i whole
      cases run
      obtain ⟨trailer, wire⟩ := wire_of_sendStatus ret
      refine ⟨_, trailer, ?_, wire⟩
      rw [all (by omega)]
      exact notMem_take_of_le_strlen short
  · cases run
    obtain ⟨trailer, wire⟩ := wire_of_sendStatus ret
    exact ⟨[], trailer, by simp, wire⟩

/-! ## The round trip -/

/-- The receiver passes the message to its callback and returns the error code. -/
structure ReturnsError (run : RecvRun) (errcode : Int) (msg : Block) : Prop where
  returned : run.outcome = .value errcode
  passed : run.passed.flatten = cString msg

/-- No error comes back from `recv_fd`. It only looks like one if the message is empty, its
code is -1 and the receiver has no memory for a control buffer, which makes it return -1. -/
theorem errorReply_iff {userfunc : Block → Int} {fd : Sink}
    {cmsghdr malloc cmsghdr' malloc' : Option Int} {sent errcode uninit : Int} {msg : Block}
    {r : ErrSent} {chunks : List (List UInt8)} (consumes : ∀ b, userfunc b = b.length)
    (run : sendErr fd cmsghdr' malloc' sent errcode msg = .ok r) (ret : r.ret = 0)
    (cuts : Cuts chunks r.wire) :
    ReturnsError (recvFd userfunc cmsghdr malloc uninit (chunks.map (.data · none))) errcode msg ↔
      allocCmsghdr cmsghdr malloc = none ∧ errcode = -1 ∧ cString msg = [] := by
  obtain ⟨text, trailer, plain, wire⟩ := message_of_sendErr run ret
  rw [wire] at cuts
  cases alloc : allocCmsghdr cmsghdr malloc with
  | none =>
      have fails : recvFd userfunc cmsghdr malloc uninit (chunks.map (.data · none)) =
          ⟨.value (-1), [], false⟩ := by
        unfold recvFd recvFdLoop
        simp [alloc]
      rw [fails]
      constructor
      · rintro ⟨returned, passed⟩
        exact ⟨rfl, by simpa [eq_comm] using returned, passed.symm⟩
      · rintro ⟨-, rfl, empty⟩
        exact ⟨rfl, empty.symm⟩
  | some old =>
      have allocated : allocCmsghdr cmsghdr malloc ≠ none := by simp [alloc]
      obtain ⟨texts, overread, -, run'⟩ :=
        @recvFdLoop_errMessage userfunc malloc cmsghdr (List.replicate MAXLINE 128) (-1) uninit []
          text trailer chunks false consumes allocated (by decide) plain cuts
      rw [recvFd, run']
      constructor
      · rintro ⟨returned, -⟩
        cases returned
      · rintro ⟨none, -⟩
        cases none

theorem sendErr_x : sendErr [] none none 2 (-1) [120, 0] = .ok ⟨0, [120, 0, 1]⟩ := by
  rw [sendErr_eq (by simp [Succeeds])]
  rfl

theorem errorReply_iff_x :
    ReturnsError (recvFd (fun b => b.length) none (some 0) 0
      ([[120], [0], [1]].map (.data · none))) (-1) [120, 0] ↔
        allocCmsghdr none (some 0) = none ∧ (-1 : Int) = -1 ∧ cString [120, 0] = [] :=
  errorReply_iff (fun _ => rfl) sendErr_x rfl (by decide)

/-- The message `x` with code -1 reaches the callback, and then the call ends without a value. -/
theorem error_x_not_returned :
    sendErr [] none none 2 (-1) [120, 0] = .ok ⟨0, [120, 0, 1]⟩ ∧
      Cuts [[120], [0], [1]] [120, 0, 1] ∧
      recvFd (fun b => b.length) none (some 0) 0 ([[120], [0], [1]].map (.data · none)) =
        ⟨.noValue, [[120]], true⟩ ∧
      ¬ ReturnsError (recvFd (fun b => b.length) none (some 0) 0
        ([[120], [0], [1]].map (.data · none))) (-1) [120, 0] := by
  have run : recvFd (fun b => b.length) none (some 0) 0 ([[120], [0], [1]].map (.data · none)) =
      ⟨.noValue, [[120]], true⟩ := by decide
  refine ⟨sendErr_x, by decide, run, ?_⟩
  rintro ⟨returned, -⟩
  rw [run] at returned
  cases returned

end UnixProgramming.FdPassing
