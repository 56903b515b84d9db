import UnixProgramming.Library.LittleEndian
import UnixProgramming.Unp.Records
import Mathlib.Data.List.Forall2

/-!
# `bin_sum` of `echo_tcp_server_v1.c`

The service compares the value of `Readn` with 0 only. A failed read and a record that
is cut short by the end of the stream are answered like a complete request.
-/

namespace UnixProgramming.EchoTcp

open CMemory Descriptor Fallible Unp

/-- `sizeof(struct args)`, with `arg1` in front of `arg2`. -/
def sizeofArgs : Nat := 16

/-- `sizeof(struct result)`. -/
def sizeofResult : Nat := 8

/-- The bytes of the result for a `struct args`. -/
def sumResult (arg : Block) : Except Fault Block := do
  let arg1 ← loadRange arg 0 8
  let arg2 ← loadRange arg 8 8
  return longBytes (longOfBytes arg1 + longOfBytes arg2)

/-- The loop of `bin_sum`: all that it sends until it returns. -/
def binSumLoop (fd : Script) (arg : Block) (out : Sink) : Except Fault (List UInt8) :=
  match _ : readn fd arg sizeofArgs with
  | .error f => .error f
  | .ok r =>
      if _ : r.ret = 0 then .ok []
      else do
        let result ← sumResult r.vptr
        let s ← writen out result sizeofResult
        let wire ← binSumLoop r.fd r.vptr s.fd
        return s.wire ++ wire
termination_by (itemsOf fd).length
decreasing_by exact readn_progress ‹_› ‹_›

/-! ## Requests and answers -/

def arg1 (request : Block) : Int := longOfBytes (request.take 8)

def arg2 (request : Block) : Int := longOfBytes (request.drop 8)

/-- The complete `struct args` of a stream. -/
def requests (bytes : List UInt8) : List Block :=
  frames (List.replicate (bytes.length / sizeofArgs) sizeofArgs) bytes

/-- What the service sends for the bytes in `arg`. -/
def answer (arg : Block) : Block := longBytes (arg1 arg + arg2 arg)

/-- The result record of the request. -/
def Answers (request reply : Block) : Prop :=
  reply.length = sizeofResult ∧ longOfBytes reply = arg1 request + arg2 request

/-- The service returns and has sent one result for each complete request, in order. -/
def AnswersComplete (bytes : List UInt8) (run : Except Fault (List UInt8)) : Prop :=
  ∃ replies, run = .ok replies.flatten ∧ List.Forall₂ Answers (requests bytes) replies

/-- How a stream ends: at end of file, or with a failed read that anything may follow. -/
inductive Ending : Script → Prop
  | eof : Ending []
  | failure (code : Nat) (rest : Script) : Ending (.fail (.other code) :: rest)

theorem length_of_mem_requests {bytes request : Block} (h : request ∈ requests bytes) :
    request.length = sizeofArgs := by
  have sizes : (requests bytes).map List.length =
      List.replicate (bytes.length / sizeofArgs) sizeofArgs :=
    map_length_frames (by rw [List.sum_replicate_nat]; exact Nat.div_mul_le_self _ _)
  have mem := List.mem_map_of_mem (f := List.length) h
  rw [sizes] at mem
  exact List.eq_of_mem_replicate mem

/-- A stream is its complete requests and the beginning of one more. -/
theorem exists_partial (bytes : List UInt8) :
    ∃ part, bytes = (requests bytes).flatten ++ part ∧ part.length = bytes.length % sizeofArgs := by
  refine ⟨_, (flatten_frames _ bytes).symm, ?_⟩
  rw [List.length_drop, List.sum_replicate_nat, Nat.mod_eq_sub, Nat.mul_comm]

/-! ## The run -/

theorem sumResult_eq {arg : Block} (size : arg.length = sizeofArgs) :
    sumResult arg = .ok (answer arg) := by
  have first : loadRange arg 0 8 = .ok (arg.take 8) := by
    rw [loadRange_eq (by rw [size]; decide), List.drop_zero]
  have second : loadRange arg 8 8 = .ok (arg.drop 8) := by
    rw [loadRange_eq (by rw [size]; decide), List.take_of_length_le]
    rw [List.length_drop, size]
    decide
  rw [sumResult, first, second]
  rfl

theorem binSumLoop_eq {fd : Script} {arg : Block} {r : Received} (out : Sink)
    (call : readn fd arg sizeofArgs = .ok r) :
    binSumLoop fd arg out =
      if r.ret = 0 then .ok []
      else do
        let result ← sumResult r.vptr
        let s ← writen out result sizeofResult
        let wire ← binSumLoop r.fd r.vptr s.fd
        return s.wire ++ wire := by
  rw [binSumLoop]
  split
  · rename_i call'
    rw [call] at call'
    cases call'
  · rename_i r' call'
    rw [call] at call'
    cases call'
    split <;> rfl

/-- An iteration that does not return answers what is in `arg`. -/
theorem binSumLoop_answer {fd : Script} {arg : Block} {out : Sink} {r : Received}
    (call : readn fd arg sizeofArgs = .ok r) (ret : r.ret ≠ 0)
    (size : r.vptr.length = sizeofArgs) (clean : CleanSink out) :
    ∃ out', CleanSink out' ∧
      binSumLoop fd arg out = (binSumLoop r.fd r.vptr out').map (answer r.vptr ++ ·) := by
  have whole : sizeofResult = (answer r.vptr).length := (length_longBytes _).symm
  obtain ⟨out', sent, clean'⟩ := writen_spec whole.le clean
  refine ⟨out', clean', ?_⟩
  rw [binSumLoop_eq out call, if_neg ret, sumResult_eq size, ok_bind, sent, ok_bind, whole,
    List.take_length]
  rfl

/-- The service returns, whatever it receives. -/
theorem binSumLoop_returns {fd : Script} {arg : Block} {out : Sink}
    (size : arg.length = sizeofArgs) (clean : CleanSink out) :
    ∃ wire, binSumLoop fd arg out = .ok wire := by
  generalize bound : (itemsOf fd).length = left
  induction left using Nat.strongRecOn generalizing fd arg out with
  | ind left ih =>
      obtain ⟨r, call, spec⟩ := readn_spec size.ge fd
      by_cases ret : r.ret = 0
      · exact ⟨[], by rw [binSumLoop_eq out call, if_pos ret]⟩
      · have size' := (spec.length_vptr size.ge).trans size
        have less := readn_progress call ret
        obtain ⟨out', clean', step⟩ := binSumLoop_answer call ret size' clean
        obtain ⟨wire, run⟩ := ih _ (bound ▸ less) size' clean' rfl
        exact ⟨answer r.vptr ++ wire, by rw [step, run]; rfl⟩

/-- Complete requests in front of the stream are answered one by one. -/
theorem binSumLoop_requests {fd : Script} {arg : Block} {out : Sink} {requests : List Block}
    {items : List Item} (size : arg.length = sizeofArgs) (clean : CleanSink out)
    (sizes : ∀ request ∈ requests, request.length = sizeofArgs)
    (stream : itemsOf fd = requests.flatten.map .byte ++ items) :
    ∃ fd' arg' out', itemsOf fd' = items ∧ arg'.length = sizeofArgs ∧ CleanSink out' ∧
      binSumLoop fd arg out =
        (binSumLoop fd' arg' out').map ((requests.map answer).flatten ++ ·) := by
  induction requests generalizing fd arg out with
  | nil =>
      refine ⟨fd, arg, out, stream, size, clean, ?_⟩
      cases binSumLoop fd arg out <;> rfl
  | cons request requests ih =>
      obtain ⟨here, later⟩ := List.forall_mem_cons.mp sizes
      obtain ⟨r, call, spec⟩ := readn_spec size.ge fd
      rw [List.flatten_cons, List.map_append, List.append_assoc] at stream
      obtain ⟨ret, vptr, rest⟩ := spec.of_front here stream
      have filled : r.vptr = request := by
        rw [vptr, List.drop_eq_nil_of_le size.le, List.append_nil]
      have size' : r.vptr.length = sizeofArgs := filled ▸ here
      obtain ⟨out₁, clean₁, step⟩ :=
        binSumLoop_answer call (by rw [ret]; decide) size' clean
      obtain ⟨fd', arg', out', items', size'', clean', run⟩ := ih size' clean₁ later rest
      refine ⟨fd', arg', out', items', size'', clean', ?_⟩
      rw [step, run, filled]
      cases binSumLoop fd' arg' out' with
      | error f => rfl
      | ok wire => simp [Except.map]

/-- At the end of the stream the service returns. -/
theorem binSumLoop_end {fd : Script} {arg : Block} (out : Sink) (size : arg.length = sizeofArgs)
    (stream : itemsOf fd = []) : binSumLoop fd arg out = .ok [] := by
  obtain ⟨r, call, spec⟩ := readn_spec size.ge fd
  have ret : r.ret = 0 := by
    cases spec with
    | full bytes size' items =>
        rw [stream] at items
        obtain ⟨none, -⟩ := List.append_eq_nil_iff.mp items.symm
        obtain rfl := List.map_eq_nil_iff.mp none
        cases size'
    | eof bytes _ items ret' =>
        have none : bytes.map Item.byte = [] := by
          obtain marked | ⟨all, -⟩ := items
          · rw [stream] at marked
            simp at marked
          · rw [← all, stream]
        obtain rfl := List.map_eq_nil_iff.mp none
        exact ret'
    | failed bytes code _ items =>
        rw [stream] at items
        simp at items
  rw [binSumLoop_eq out call, if_pos ret]

/-- A partial request or a failure is answered. -/
theorem binSumLoop_stale {fd : Script} {arg : Block} {out : Sink}
    (size : arg.length = sizeofArgs) (clean : CleanSink out) (more : itemsOf fd ≠ [])
    (noEof : ∀ items, itemsOf fd ≠ .eof :: items) :
    ∃ wire, binSumLoop fd arg out = .ok wire ∧ sizeofResult ≤ wire.length := by
  obtain ⟨r, call, spec⟩ := readn_spec size.ge fd
  have ret : r.ret ≠ 0 := by
    intro zero
    obtain ended | ⟨items, ended⟩ := spec.items_of_ret (by decide) zero
    · exact more ended
    · exact noEof items ended
  have size' := (spec.length_vptr size.ge).trans size
  obtain ⟨out', clean', step⟩ := binSumLoop_answer call ret size' clean
  obtain ⟨wire, run⟩ : ∃ wire, binSumLoop r.fd r.vptr out' = .ok wire :=
    binSumLoop_returns size' clean'
  refine ⟨answer r.vptr ++ wire, by rw [step, run]; rfl, ?_⟩
  rw [List.length_append, answer, length_longBytes]
  exact Nat.le_add_right 8 _

/-- The items of a stream in front of how it ends. -/
theorem items_of_ending {pre ending : Script} (clean : Clean pre) :
    itemsOf (pre ++ ending) = (bytesOf pre).map .byte ++ itemsOf ending := by
  rw [itemsOf_append, itemsOf_clean clean]

theorem answers_answer {request : Block} (fits : IsLong (arg1 request + arg2 request)) :
    Answers request (answer request) :=
  ⟨length_longBytes _, longOfBytes_longBytes fits⟩

/-- The results of complete requests have their sizes. -/
theorem length_flatten_of_answers {requests replies : List Block}
    (h : List.Forall₂ Answers requests replies) :
    replies.flatten.length = sizeofResult * requests.length := by
  induction h with
  | nil => rfl
  | cons here _ ih =>
      rw [List.flatten_cons, List.length_append, ih, here.1, List.length_cons, Nat.mul_succ,
        Nat.add_comm]

theorem forall₂_answer {requests : List Block}
    (noOverflow : ∀ request ∈ requests, IsLong (arg1 request + arg2 request)) :
    List.Forall₂ Answers requests (requests.map answer) := by
  rw [List.forall₂_map_right_iff, List.forall₂_same]
  intro request mem
  exact answers_answer (noOverflow request mem)

/-- What follows the complete requests is no end of file, unless the stream ends there. -/
theorem stale_of_ending {part : List UInt8} {ending : Script} (ends : Ending ending)
    (more : ¬ (ending = [] ∧ part = [])) :
    part.map .byte ++ itemsOf ending ≠ [] ∧
      ∀ items, part.map .byte ++ itemsOf ending ≠ .eof :: items := by
  cases part with
  | nil =>
      cases ends with
      | eof => exact absurd ⟨rfl, rfl⟩ more
      | failure code rest => simp [itemsOf]
  | cons b part => simp

/-- The service answers the complete requests of a client and nothing else exactly if the
stream ends at end of file, behind a complete request. -/
theorem binSum_answers_iff {pre ending : Script} {arg : Block} {out : Sink} (clean : Clean pre)
    (ends : Ending ending) (size : arg.length = sizeofArgs) (cleanOut : CleanSink out)
    (noOverflow : ∀ request ∈ requests (bytesOf pre), IsLong (arg1 request + arg2 request)) :
    AnswersComplete (bytesOf pre) (binSumLoop (pre ++ ending) arg out) ↔
      ending = [] ∧ sizeofArgs ∣ (bytesOf pre).length := by
  obtain ⟨part, stream, short⟩ := exists_partial (bytesOf pre)
  have items : itemsOf (pre ++ ending) =
      (requests (bytesOf pre)).flatten.map .byte ++ (part.map .byte ++ itemsOf ending) := by
    rw [items_of_ending clean, ← List.append_assoc, ← List.map_append, ← stream]
  have whole : sizeofArgs ∣ (bytesOf pre).length ↔ part = [] := by
    rw [← List.length_eq_zero_iff, short, Nat.dvd_iff_mod_eq_zero]
  have answered := forall₂_answer noOverflow
  obtain ⟨fd, arg', out', rest, size', cleanOut', run⟩ :=
    binSumLoop_requests size cleanOut (fun _ mem => length_of_mem_requests mem) items
  rw [whole]
  constructor
  · rintro ⟨replies, run', answers⟩
    by_contra more
    obtain ⟨nonempty, noEof⟩ := stale_of_ending ends more
    obtain ⟨wire, last, long⟩ :=
      binSumLoop_stale size' cleanOut' (rest ▸ nonempty) (rest ▸ noEof)
    rw [run, last] at run'
    have lengths := congrArg List.length (Except.ok.inj run')
    rw [List.length_append, length_flatten_of_answers answered,
      length_flatten_of_answers answers] at lengths
    have : 0 < sizeofResult := by decide
    omega
  · rintro ⟨rfl, rfl⟩
    refine ⟨(requests (bytesOf pre)).map answer, ?_, answered⟩
    rw [run, binSumLoop_end out' size' rest]
    exact congrArg Except.ok (List.append_nil _)

/-- A complete request in two pieces, then end of file. -/
theorem binSum_answers_two_pieces :
    AnswersComplete [1, 0, 0, 0, 0, 0, 0, 0, 2, 0, 0, 0, 0, 0, 0, 0]
      (binSumLoop ([.data [1, 0, 0], .fail .eintr, .data [0, 0, 0, 0, 0, 2, 0, 0, 0, 0, 0, 0, 0]] ++
        []) (List.replicate 16 0) []) :=
  (binSum_answers_iff (by decide) .eof rfl (by decide) (by decide)).mpr ⟨rfl, by decide⟩

/-- A peer that dies behind the first byte of a request gets a result. -/
theorem binSum_answers_partial :
    requests [7] = [] ∧
      (∃ wire, binSumLoop ([.data [7]] ++ []) (List.replicate 16 0) [] = .ok wire ∧
        sizeofResult ≤ wire.length) ∧
      ¬ AnswersComplete [7] (binSumLoop ([.data [7]] ++ []) (List.replicate 16 0) []) := by
  have stale : ∃ wire, binSumLoop ([.data [7]] ++ []) (List.replicate 16 0) [] = .ok wire ∧
      sizeofResult ≤ wire.length :=
    binSumLoop_stale rfl (by decide) (by simp [itemsOf]) (by simp [itemsOf])
  refine ⟨rfl, stale, ?_⟩
  obtain ⟨wire, run, long⟩ := stale
  rintro ⟨replies, run', answers⟩
  obtain rfl := List.forall₂_nil_left_iff.mp answers
  rw [run] at run'
  obtain rfl := Except.ok.inj run'
  simp [sizeofResult] at long

end UnixProgramming.EchoTcp
