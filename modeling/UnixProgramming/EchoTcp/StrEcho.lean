import UnixProgramming.EchoTcp.Session
import UnixProgramming.Library.CString
import UnixProgramming.Unp.Records

/-!
# `str_echo` of `echo_tcp_server_v1.c`

The loop over `read` is left at end of file and when a call fails, and it is entered again when
the failure was an interruption. What is read goes out through `Writen`, which has a loop of
its own. In front of it a log line prints the buffer as a string, but a `read` of `sizeof(buff)`
bytes leaves no room for a NUL.
-/

namespace UnixProgramming.EchoTcp

open CMemory Descriptor Fallible Unp

/-- The last result of `read`, with which `str_echo` returns. -/
inductive EchoEnding
  | eof
  | readError (code : Nat)
  deriving DecidableEq

/-- The lines that `str_echo` prints. -/
inductive EchoLog
  | serverRecv (len : Nat) (data : Block)
  | unwantedInterrupt
  | serverReadError
  | readLen (len : Nat)
  deriving DecidableEq

/-- What `str_echo` leaves behind: how it ended, the bytes that went out, both directions of
the socket, and what it has printed. -/
structure Echoed where
  ending : EchoEnding
  wire : List UInt8
  fd : Script
  out : Sink
  log : List EchoLog
  deriving DecidableEq

/-- A line and the bytes of one `Writen` in front of those of the rest of the loop. -/
def Echoed.after (r : Echoed) (line : EchoLog) (wire : List UInt8) : Echoed :=
  ⟨r.ending, wire ++ r.wire, r.fd, r.out, line :: r.log⟩

/-- `str_echo`, with a buffer that may hold anything before the first `read`. -/
def strEcho (fd : Script) (buff : Block) (out : Sink) : Except Fault Echoed :=
  match _ : read MAXLINE fd with
  -- `goto again`
  | (.error .eintr, fd) => do
      let r ← strEcho fd buff out
      return r.after .unwantedInterrupt []
  | (.error (.other code), fd) => return ⟨.readError code, [], fd, out, [.serverReadError]⟩
  | (.ok [], fd) => return ⟨.eof, [], fd, out, [.readLen 0]⟩
  | (.ok (b :: bytes), fd) => do
      let buff ← storeRange buff 0 (b :: bytes)
      -- `%s` of the log line
      let data ← readString buff
      let s ← writen out buff (b :: bytes).length
      -- `memset(buff, 0, sizeof(buff))`
      let r ← strEcho fd (List.replicate MAXLINE 0) s.fd
      return r.after (.serverRecv (b :: bytes).length data) s.wire
termination_by undone fd
decreasing_by
  · exact undone_of_read_error ‹_›
  · exact undone_of_read_cons ‹_›

/-- `str_echo` returns at end of file, and it has written the stream back. -/
def Echoes (fd : Script) (result : Except Fault Echoed) : Prop :=
  ∃ r, result = .ok r ∧ r.ending = .eof ∧ r.fd = [] ∧ r.wire = bytesOf fd

/-- What the calls of `read` return leaves a NUL in the buffer: the first one in a buffer that is
not initialised, the others in one of `MAXLINE` NUL bytes. -/
def Printable (buff : Block) : List Block → Prop
  | [] => True
  | first :: later =>
      0 ∈ fill buff first ∧ ∀ piece ∈ later, 0 ∈ piece ∨ piece.length < MAXLINE

instance (buff : Block) : DecidablePred (Printable buff)
  | [] => .isTrue trivial
  | first :: later => inferInstanceAs (Decidable
      (0 ∈ fill buff first ∧ ∀ piece ∈ later, 0 ∈ piece ∨ piece.length < MAXLINE))

theorem nul_mem_fill_replicate (n : Nat) (piece : Block) :
    0 ∈ fill (List.replicate n 0) piece ↔ 0 ∈ piece ∨ piece.length < n := by
  rw [fill, List.mem_append, List.drop_replicate, List.mem_replicate, ← Nat.pos_iff_ne_zero,
    Nat.sub_pos_iff_lt]
  exact or_congr_right (and_iff_left rfl)

/-- Behind the `memset` it is the same condition. -/
theorem printable_replicate (pieces : List Block) :
    Printable (List.replicate MAXLINE 0) pieces ↔
      ∀ piece ∈ pieces, 0 ∈ piece ∨ piece.length < MAXLINE := by
  cases pieces with
  | nil => exact iff_of_true trivial nofun
  | cons first later =>
      rw [Printable, nul_mem_fill_replicate, List.forall_mem_cons]

theorem strEcho_interrupted {fd rest : Script} {buff : Block} {out : Sink}
    (call : read MAXLINE fd = (.error .eintr, rest)) :
    strEcho fd buff out = (do
      let r ← strEcho rest buff out
      return r.after .unwantedInterrupt []) := by
  rw [strEcho]
  split
  all_goals
    rename_i here
    rw [call] at here
    cases here
  rfl

/-- One call of `read` that returns bytes, and its `Writen`. -/
theorem strEcho_cons {fd rest : Script} {buff : Block} {out : Sink} {b : UInt8} {bytes : Block}
    (call : read MAXLINE fd = (.ok (b :: bytes), rest)) (size : buff.length = MAXLINE)
    (cleanOut : CleanSink out) :
    ∃ out', CleanSink out' ∧ strEcho fd buff out = (do
      let data ← readString (fill buff (b :: bytes))
      let r ← strEcho rest (List.replicate MAXLINE 0) out'
      return r.after (.serverRecv (b :: bytes).length data) (b :: bytes)) := by
  have fits : (b :: bytes).length ≤ buff.length := size ▸ (bytesOf_of_read call).2
  have room : (b :: bytes).length ≤ (fill buff (b :: bytes)).length :=
    (length_fill fits).symm ▸ fits
  obtain ⟨out', sent, cleanOut'⟩ := writen_spec room cleanOut
  refine ⟨out', cleanOut', ?_⟩
  rw [strEcho]
  split
  all_goals
    rename_i here
    rw [call] at here
    cases here
  rw [storeRange_zero fits, ok_bind]
  simp only [sent, ok_bind, take_fill]

theorem not_echoes_fault (fd : Script) (fault : Fault) : ¬ Echoes fd (.error fault) := by
  rintro ⟨_, run, _⟩
  cases run

/-- The rest of the loop writes back the rest of the stream. -/
theorem echoes_after {fd rest : Script} {result : Except Fault Echoed} {line : EchoLog}
    {wire : Block} (stream : bytesOf fd = wire ++ bytesOf rest) :
    Echoes fd (result >>= fun r => return r.after line wire) ↔ Echoes rest result := by
  cases result with
  | error e => exact iff_of_false (not_echoes_fault fd e) (not_echoes_fault rest e)
  | ok r =>
      constructor
      · rintro ⟨_, same, ending, exhausted, out⟩
        cases same
        rw [stream] at out
        exact ⟨r, rfl, ending, exhausted, List.append_cancel_left out⟩
      · rintro ⟨_, same, ending, exhausted, out⟩
        cases same
        exact ⟨_, rfl, ending, exhausted, by rw [stream, ← out]; rfl⟩

theorem echoed_iff {fd : Script} {buff : Block} {out : Sink} (size : buff.length = MAXLINE)
    (clean : Clean fd) (cleanOut : CleanSink out) :
    Echoes fd (strEcho fd buff out) ↔ Printable buff (pieces MAXLINE fd) := by
  induction calls : undone fd using Nat.strong_induction_on generalizing fd buff out with
  | _ _ ih =>
  subst calls
  have spec := read_clean (by decide : 0 < MAXLINE) clean
  cases call : read MAXLINE fd with
  | mk result rest =>
    rw [call] at spec
    cases spec with
    | eof exhausted =>
        subst exhausted
        rw [pieces_of_nil call, strEcho]
        exact iff_of_true ⟨_, rfl, rfl, rfl, rfl⟩ trivial
    | interrupted clean' =>
        have less := undone_of_read_error call
        rw [pieces_of_error call, ← ih _ less size clean' cleanOut rfl, strEcho_interrupted call]
        exact echoes_after (bytesOf_of_read call).1
    | @bytes b bytes _ clean' =>
        have less := undone_of_read_cons call
        obtain ⟨out', cleanOut', run⟩ := strEcho_cons call size cleanOut
        have zeroed : (List.replicate MAXLINE (0 : UInt8)).length = MAXLINE := List.length_replicate
        have later := ih _ less zeroed clean' cleanOut' rfl
        rw [printable_replicate] at later
        have stream : bytesOf fd = (b :: bytes) ++ bytesOf rest := (bytesOf_of_read call).1
        rw [pieces_of_cons call, Printable, run, ← later]
        by_cases ends : 0 ∈ fill buff (b :: bytes)
        · rw [readString, if_pos ends, ok_bind, echoes_after stream]
          exact (and_iff_right ends).symm
        · rw [readString, if_neg ends]
          exact iff_of_false (not_echoes_fault fd _) fun both => ends both.1

/-- Whatever the client sends, however it arrives and however it is taken, `str_echo` comes to
end of file and has written the stream back, exactly if its log line never reads on behind the
buffer. -/
theorem strEcho_echoes_iff {fd : Script} {buff : Block} {out : Sink} (size : buff.length = MAXLINE)
    (clean : Clean fd) (cleanOut : CleanSink out) :
    Echoes fd (strEcho fd buff out) ↔ Printable buff (pieces MAXLINE fd) :=
  echoed_iff size clean cleanOut

/-- Two pieces with an interruption between them, written back in three. -/
theorem strEcho_echoes_iff_pieces :
    Echoes [.data [104, 105], .fail .eintr, .data [10]]
      (strEcho [.data [104, 105], .fail .eintr, .data [10]] (List.replicate MAXLINE 0)
        [.accept 1, .fail .eintr]) := by
  have first : read MAXLINE [.data [104, 105], .fail .eintr, .data [10]] =
      (.ok [104, 105], [.fail .eintr, .data [10]]) := rfl
  have again : read MAXLINE [.fail .eintr, .data [10]] = (.error .eintr, [.data [10]]) := rfl
  have second : read MAXLINE [.data [10]] = (.ok [10], []) := rfl
  have short : pieces MAXLINE [.data [104, 105], .fail .eintr, .data [10]] =
      [[104, 105], [10]] := by
    rw [pieces_of_cons first, pieces_of_error again, pieces_of_cons second, pieces_of_nil rfl]
  refine (strEcho_echoes_iff List.length_replicate (by decide) (by decide)).mpr ?_
  rw [printable_replicate, short]
  decide

/-- 512 letters in one piece. -/
theorem strEcho_full_buffer :
    ¬ Echoes [.data (List.replicate MAXLINE 97)]
      (strEcho [.data (List.replicate MAXLINE 97)] (List.replicate MAXLINE 0) []) := by
  have call : read MAXLINE [.data (List.replicate MAXLINE 97)] =
      (.ok (97 :: List.replicate 511 97), []) := by
    rw [Descriptor.read, if_pos List.length_replicate.le, MAXLINE, List.replicate_succ]
  have clean : Clean [.data (List.replicate MAXLINE 97)] :=
    clean_cons.mpr ⟨List.cons_ne_nil _ _, clean_nil⟩
  rw [echoed_iff List.length_replicate clean (by decide), printable_replicate,
    pieces_of_cons call]
  intro all
  obtain nul | short := all _ List.mem_cons_self
  · rw [← List.replicate_succ] at nul
    exact absurd (List.eq_of_mem_replicate nul) (by decide)
  · rw [List.length_cons, List.length_replicate] at short
    exact lt_irrefl _ short

end UnixProgramming.EchoTcp
