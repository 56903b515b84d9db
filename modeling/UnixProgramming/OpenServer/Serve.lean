import UnixProgramming.Library.Descriptor
import UnixProgramming.OpenServer.History

/-!
# The loop of `open_server_v1.c` and the requests in its input

Each result of `read` is handled as a request. The buffer holds one byte, so each byte
of a request is answered on its own. What `send_fd` prints for each reply goes into the
stream as well, whenever the buffer of `stdout` is full. What is in it at the end is
written by `exit`, to a client that has closed the stream.
-/

namespace UnixProgramming.OpenServer

open CMemory Descriptor Fallible

theorem MAXLINE_pos : 0 < MAXLINE := Nat.one_pos

/-- The loop of `start_open_server_v1`: all that it sends. A result fills the one byte of the
buffer. -/
def serveLoop (env : Env) (fd : Script) (g : Globals) : Except Fault (List Sent) :=
  match _ : read MAXLINE fd with
  -- `err_sys` returns, and `handle_request` reads `buf[-2]`
  | (.error _, _) => .error (.outOfBounds 0)
  | (.ok [], _) => .ok []
  | (.ok (b :: bytes), fd) => do
      let handled ← handleRequest env (b :: bytes) (b :: bytes).length g
      let sent ← serveLoop env fd handled.globals
      return handled.sent ++ sent
termination_by (itemsOf fd).length
decreasing_by exact length_items_of_read MAXLINE_pos ‹_›

/-- The replies to requests that are handled as they are. -/
def answerAll (env : Env) (g : Globals) : List Block → Except Fault (List Reply)
  | [] => .ok []
  | request :: requests => do
      let handled ← handleRequest env request request.length g
      let replies ← answerAll env handled.globals requests
      return handled.reply :: replies

theorem answerAll_returns (env : Env) (g : Globals) {requests : List Block}
    (nonempty : ∀ request ∈ requests, request ≠ []) :
    ∃ replies, answerAll env g requests = .ok replies := by
  induction requests generalizing g with
  | nil => exact ⟨[], rfl⟩
  | cons request requests ih =>
      obtain ⟨here, later⟩ := List.forall_mem_cons.mp nonempty
      have run := handleRequest_eq env here g
      obtain ⟨replies, rest⟩ := ih _ later
      exact ⟨_, by rw [answerAll, run, ok_bind, rest]; rfl⟩

theorem length_of_answerAll {env : Env} {g : Globals} {requests : List Block}
    {replies : List Reply} (run : answerAll env g requests = .ok replies) :
    replies.length = requests.length := by
  induction requests generalizing g replies with
  | nil =>
      cases run
      rfl
  | cons request requests ih =>
      obtain ⟨handled, -, run⟩ := bind_ok run
      obtain ⟨rest, run', last⟩ := bind_ok run
      cases last
      rw [List.length_cons, List.length_cons, ih run']

/-- The results of `read` that give the bytes of the requests, none larger than the buffer. -/
def Arrives (chunks requests : List Block) : Prop :=
  chunks.flatten = requests.flatten ∧ ∀ chunk ∈ chunks, chunk ≠ [] ∧ chunk.length ≤ MAXLINE

theorem serveLoop_end (env : Env) (g : Globals) : serveLoop env [] g = .ok [] := by
  rw [serveLoop]
  rfl

/-- A result that fits the buffer is handled whole. -/
theorem serveLoop_data (env : Env) (g : Globals) (fd : Script) {chunk : Block}
    (nonempty : chunk ≠ []) (fits : chunk.length ≤ MAXLINE) :
    serveLoop env (.data chunk :: fd) g = do
      let handled ← handleRequest env chunk chunk.length g
      let sent ← serveLoop env fd handled.globals
      return handled.sent ++ sent := by
  obtain ⟨b, bytes, rfl⟩ := List.exists_cons_of_ne_nil nonempty
  have call : read MAXLINE (.data (b :: bytes) :: fd) = (.ok (b :: bytes), fd) := if_pos fits
  rw [serveLoop]
  split <;> rename_i call' <;> rw [call] at call' <;> cases call'
  rfl

theorem length_eq_one_of_fits {chunk : Block} (nonempty : chunk ≠ [])
    (fits : chunk.length ≤ MAXLINE) : chunk.length = 1 := by
  have some : 0 < chunk.length := List.length_pos_iff.mpr nonempty
  simp only [MAXLINE] at fits
  omega

/-- One byte has no arguments. -/
theorem not_reachesArguments_of_fits {chunk : Block} (nonempty : chunk ≠ [])
    (fits : chunk.length ≤ MAXLINE) : ¬ ReachesArguments chunk := by
  obtain ⟨c, rfl⟩ := List.length_eq_one_iff.mp (length_eq_one_of_fits nonempty fits)
  rintro ⟨ending, words, -⟩
  obtain rfl : c = 0 := by simpa using ending
  rw [cString_nul, Strtok.wordsOf_nil] at words
  exact absurd words (lt_irrefl 0)

/-- The lines that are printed for `n` replies fit into the buffer. -/
def RoomFor (out : Stdout) (n : Nat) : Prop :=
  out.pending.length + n * (errorLine ++ sendLine 1).length ≤ out.size

instance (out : Stdout) (n : Nat) : Decidable (RoomFor out n) :=
  inferInstanceAs (Decidable (out.pending.length + n * (errorLine ++ sendLine 1).length ≤ out.size))

example : RoomFor Globals.init.stdout 105 ∧ ¬ RoomFor Globals.init.stdout 106 := by decide

/-- Every byte that a client writes is answered with the text that is in `errmsg` from the start.
Nothing else goes out exactly if `stdout` has room for all that is printed. -/
theorem serveLoop_sent (env : Env) (g : Globals) {chunks : List Block}
    (sizes : ∀ chunk ∈ chunks, chunk ≠ [] ∧ chunk.length ≤ MAXLINE) :
    ∃ sent, serveLoop env (chunks.map .data) g = .ok sent ∧
      sent.filter (!·.isPrinted) =
        (List.replicate chunks.length (Reply.err (-1) (cString g.errmsg))).flatMap Reply.items ∧
      (sent.filter (!·.isPrinted) = sent ↔ RoomFor g.stdout chunks.length) := by
  induction chunks generalizing g with
  | nil =>
      refine ⟨[], serveLoop_end env g, rfl, iff_of_true rfl ?_⟩
      simpa [RoomFor] using g.stdout.fits
  | cons chunk chunks ih =>
      obtain ⟨⟨nonempty, fits⟩, later⟩ := List.forall_mem_cons.mp sizes
      have run := handleRequest_eq env nonempty g
      rw [Globals.answering, if_neg (not_reachesArguments_of_fits nonempty fits)] at run
      obtain ⟨sent, rest, replies, quiet⟩ := ih ((g.note (0 ∉ chunk)).respond
        (.err (-1) (cString g.errmsg)) none).globals later
      refine ⟨((Reply.err (-1) (cString g.errmsg)).send g.stdout).1 ++ sent, ?_, ?_, ?_⟩
      · rw [List.map_cons, serveLoop_data env g _ nonempty fits, run, ok_bind]
        exact congrArg (· >>= _) rest
      · rw [List.filter_append, send_filter, replies, List.length_cons, List.replicate_succ,
          List.flatMap_cons]
        rfl
      · by_cases room : HasRoom g.stdout
        · obtain ⟨items, pending⟩ := send_of_hasRoom room (cString g.errmsg)
          have size := size_send g.stdout (cString g.errmsg)
          rw [List.filter_append, send_filter, items, List.append_cancel_left_eq, quiet]
          show RoomFor ((Reply.err (-1) (cString g.errmsg)).send g.stdout).2 chunks.length ↔ _
          rw [RoomFor, RoomFor, pending, size, List.length_append, List.length_cons, Nat.succ_mul,
            Nat.add_assoc, Nat.add_comm (_ * _)]
        · have full : ¬ RoomFor g.stdout (chunk :: chunks).length := by
            rw [HasRoom] at room
            rw [RoomFor, List.length_cons, Nat.succ_mul]
            omega
          obtain ⟨written, mem⟩ := printed_of_not_hasRoom room (cString g.errmsg)
          refine iff_of_false (fun same => ?_) full
          have kept := List.filter_eq_self.mp same _ (List.mem_append_left sent mem)
          cases kept

/-- A request of the client, which ends with its only NUL. -/
def Terminated (request : Block) : Prop := ∃ body, 0 ∉ body ∧ request = body ++ [0]

/-- There is one reply to each request, computed from its bytes, and nothing else goes out. -/
def Framed (env : Env) (g : Globals) (chunks requests : List Block) : Prop :=
  ∃ replies, serveLoop env (chunks.map .data) g = .ok (replies.flatMap Reply.items) ∧
    answerAll env g requests = .ok replies

/-- The last item of a reply. -/
def Sent.closes : Sent → Bool
  | .status _ | .descriptor _ => true
  | .text _ | .printed _ => false

theorem countP_closes_items (replies : List Reply) :
    (replies.flatMap Reply.items).countP Sent.closes = replies.length := by
  induction replies with
  | nil => rfl
  | cons reply replies ih =>
      have one : reply.items.countP Sent.closes = 1 := by
        cases reply with
        | err errcode msg =>
            rw [Reply.items]
            split <;> rfl
        | descriptor fd => rfl
      rw [List.flatMap_cons, List.countP_append, one, ih, List.length_cons, Nat.add_comm]

theorem filter_items (replies : List Reply) :
    (replies.flatMap Reply.items).filter (!·.isPrinted) = replies.flatMap Reply.items := by
  rw [List.filter_eq_self]
  intro item mem
  obtain ⟨reply, -, mem⟩ := List.mem_flatMap.mp mem
  cases item with
  | printed written => exact absurd mem (not_printed_items reply written)
  | text msg => rfl
  | status errcode => rfl
  | descriptor fd => rfl

/-- Bare NUL bytes are answered as they are. -/
theorem answerAll_bare (env : Env) (g : Globals) {requests : List Block}
    (bare : ∀ request ∈ requests, request = [0]) :
    answerAll env g requests =
      .ok (List.replicate requests.length (.err (-1) (cString g.errmsg))) := by
  induction requests generalizing g with
  | nil => rfl
  | cons request requests ih =>
      obtain ⟨rfl, later⟩ := List.forall_mem_cons.mp bare
      have run := handleRequest_eq env (List.cons_ne_nil (0 : UInt8) []) g
      rw [answering_of_stays (by decide)] at run
      rw [answerAll, run, ok_bind, ih _ later]
      rfl

/-- Pieces of one byte are the bytes. -/
theorem map_singleton_flatten {pieces : List Block} (sizes : ∀ piece ∈ pieces, piece.length = 1) :
    pieces.flatten.map ([·]) = pieces := by
  induction pieces with
  | nil => rfl
  | cons piece pieces ih =>
      obtain ⟨here, later⟩ := List.forall_mem_cons.mp sizes
      obtain ⟨c, rfl⟩ := List.length_eq_one_iff.mp here
      rw [List.flatten_cons, List.singleton_append, List.map_cons, ih later]

/-- As many pieces as bytes are pieces of one byte. -/
theorem length_eq_one_of_flatten {pieces : List Block} (nonempty : ∀ piece ∈ pieces, piece ≠ []) :
    pieces.length ≤ pieces.flatten.length ∧
      (pieces.flatten.length = pieces.length → ∀ piece ∈ pieces, piece.length = 1) := by
  induction pieces with
  | nil => simp
  | cons piece pieces ih =>
      obtain ⟨here, later⟩ := List.forall_mem_cons.mp nonempty
      obtain ⟨atLeast, ones⟩ := ih later
      have some : 0 < piece.length := List.length_pos_iff.mpr here
      rw [List.flatten_cons, List.length_append, List.length_cons]
      refine ⟨by omega, fun equal => List.forall_mem_cons.mpr ⟨by omega, ones (by omega)⟩⟩

/-- Requests are framed exactly if there is nothing in front of their NUL bytes, and what is printed
for them stays in the buffer of `stdout`. -/
theorem framed_iff {env : Env} {g : Globals} {chunks requests : List Block}
    (terminated : ∀ request ∈ requests, Terminated request) (arrives : Arrives chunks requests) :
    Framed env g chunks requests ↔
      (∀ request ∈ requests, request = [0]) ∧ RoomFor g.stdout requests.length := by
  have bytes : chunks = requests.flatten.map ([·]) := by
    rw [← arrives.1, map_singleton_flatten]
    intro chunk mem
    obtain ⟨nonempty, fits⟩ := arrives.2 chunk mem
    exact length_eq_one_of_fits nonempty fits
  have nonempty : ∀ request ∈ requests, request ≠ [] := by
    intro request mem
    obtain ⟨body, -, rfl⟩ := terminated request mem
    simp
  obtain ⟨sent, served, all, quiet⟩ := serveLoop_sent env g arrives.2
  constructor
  · rintro ⟨replies, served', answered⟩
    rw [served] at served'
    cases served'
    rw [filter_items] at all quiet
    have counts : replies.length = chunks.length := by
      rw [← countP_closes_items, all, countP_closes_items, List.length_replicate]
    rw [length_of_answerAll answered] at counts
    refine ⟨fun request mem => ?_, counts ▸ quiet.mp rfl⟩
    rw [bytes, List.length_map] at counts
    have one := (length_eq_one_of_flatten nonempty).2 counts.symm request mem
    obtain ⟨body, -, rfl⟩ := terminated request mem
    obtain rfl : body = [] := by simpa using one
    rfl
  · rintro ⟨bare, room⟩
    have ones : ∀ request ∈ requests, request.length = 1 := by
      intro request mem
      rw [bare request mem, List.length_singleton]
    rw [map_singleton_flatten ones] at bytes
    refine ⟨_, ?_, answerAll_bare env g bare⟩
    rw [served, ← quiet.mpr (bytes ▸ room), all, bytes]

/-- Two bare NUL bytes. -/
theorem framed_iff_bare :
    Framed .opening .init [[0], [0]] [[0], [0]] ↔
      (∀ request ∈ [[0], [0]], request = [(0 : UInt8)]) ∧ RoomFor Globals.init.stdout 2 :=
  framed_iff (by simp [Terminated]) (by simp [Arrives, MAXLINE])

/-- The request `f` arrives in two results, and each of them gets a reply. -/
theorem request_f_cut :
    Terminated [102, 0] ∧ Arrives [[102], [0]] [[102, 0]] ∧
      serveLoop .opening ([[102], [0]].map .data) .init = .ok [.status (-1), .status (-1)] ∧
      ¬ Framed .opening .init [[102], [0]] [[102, 0]] := by
  have arrives : Arrives [[102], [0]] [[102, 0]] := by simp [Arrives, MAXLINE]
  obtain ⟨sent, served, all, quiet⟩ := serveLoop_sent .opening .init arrives.2
  have room : RoomFor Globals.init.stdout 2 := by decide
  have same : sent = [.status (-1), .status (-1)] := (quiet.mpr room).symm.trans all
  rw [same] at served
  refine ⟨⟨[102], by decide, rfl⟩, arrives, served, ?_⟩
  rintro ⟨replies, served', answered⟩
  rw [served] at served'
  have counts := congrArg (List.countP Sent.closes) (Except.ok.inj served')
  rw [countP_closes_items, length_of_answerAll answered] at counts
  exact absurd counts (by decide)

end UnixProgramming.OpenServer
