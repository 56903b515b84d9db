import UnixProgramming.OpenServer.RequestCodec

/-!
# Replies of `handle_request` and earlier requests

`errmsg` is global. Only the usage text is ever stored to it, and it does not fit. `buf_args`
returns -1 without a text of its own, and `snprintf` with the size `MAXLINE - 1` stores
nothing. So the other failures are answered with what an earlier request has left. And
what `send_fd` prints for earlier requests comes out in the middle of a later reply.
-/

namespace UnixProgramming.OpenServer

open CMemory Fallible Strtok

/-! ## The arguments -/

/-- With two counts for each word the array is full behind 24 of them. -/
theorem bufArgsLoop_words {buf front rest back : Block} {save argc : Nat}
    {argv : List (Option Nat)} (split : buf = front ++ rest ++ 0 :: back)
    (position : save = front.length) (plain : 0 ∉ rest) (array : argv.length = MAXARGCNUM) :
    ∃ tokens, bufArgsLoop buf save argc argv = .ok tokens ∧
      (tokens.args = none ↔
        0 < (wordsOf WHITE rest).length ∧
          MAXARGCNUM ≤ argc + 2 * (wordsOf WHITE rest).length) := by
  have noNul : 0 ∉ WHITE := by decide
  fun_induction bufArgsLoop buf save argc argv generalizing front rest back with
  | case1 buf save argc argv f failed =>
      obtain ⟨r, called, -⟩ := strtok_next noNul plain front back
      rw [split, position, called] at failed
      cases failed
  | case2 buf save argc argv buf' save' called =>
      refine ⟨_, rfl, ?_⟩
      cases next_of_strtok noNul plain split position called with
      | ending token words => simp [words]
      | word front' rest' token => cases token
  | case3 buf save argc argv ptr buf' save' called full =>
      refine ⟨_, rfl, ?_⟩
      cases next_of_strtok noNul plain split position called with
      | ending token => cases token
      | word front' rest' token buf'' save'' plain' words =>
          simp only [MAXARGCNUM, words, List.length_cons, true_iff] at full ⊢
          omega
  | case4 buf save argc argv ptr buf' save' called more f failed =>
      have room : argc + 2 < argv.length := by
        rw [array]
        simp only [MAXARGCNUM] at more ⊢
        omega
      rw [store_eq room] at failed
      cases failed
  | case5 buf save argc argv ptr buf' save' called more argv' stored ih =>
      cases next_of_strtok noNul plain split position called with
      | ending token => cases token
      | @word front' rest' p word token buf'' save'' plain' words =>
          have array' : argv'.length = MAXARGCNUM := by
            rw [(store_ok stored).2, List.length_set, array]
          obtain ⟨tokens, run, full⟩ := ih buf'' save'' plain' array'
          refine ⟨tokens, run, ?_⟩
          rw [full, words, List.length_cons]
          simp only [MAXARGCNUM] at more ⊢
          omega

/-- `buf_args` comes to `cli_args` with one word at least and with 25 at most. -/
theorem tokenize_words {rest : Block} (plain : 0 ∉ rest) (back : Block) :
    ∃ tokens, tokenize (rest ++ 0 :: back) = .ok tokens ∧
      (tokens.args ≠ none ↔
        0 < (wordsOf WHITE rest).length ∧ 2 * (wordsOf WHITE rest).length ≤ MAXARGCNUM) := by
  obtain ⟨r, called, next⟩ := strtok_next (by decide : 0 ∉ WHITE) plain [] back
  rw [List.nil_append, List.length_nil] at called
  rw [tokenize, called, ok_bind]
  cases next with
  | ending token words =>
      rw [token]
      exact ⟨_, rfl, by simp [words]⟩
  | word front' rest' token buf save plain' words =>
      have array : store (List.replicate MAXARGCNUM none) 0 (some 0) =
          .ok (some 0 :: List.replicate (MAXARGCNUM - 1) none) := rfl
      obtain ⟨tokens, run, full⟩ := @bufArgsLoop_words r.buf front' rest' back r.save 0
        (some 0 :: List.replicate (MAXARGCNUM - 1) none) buf save plain' rfl
      rw [token]
      dsimp only
      rw [array, ok_bind]
      refine ⟨tokens, run, ?_⟩
      rw [ne_eq, full, words, List.length_cons]
      simp only [MAXARGCNUM]
      omega

/-! ## One request -/

/-- The request comes to the check of its arguments: it ends with a NUL and has between 1 and
25 words. -/
def ReachesArguments (buf : Block) : Prop :=
  buf.getLast? = some 0 ∧ 0 < (wordsOf WHITE (cString buf)).length ∧
    2 * (wordsOf WHITE (cString buf)).length ≤ MAXARGCNUM

instance : DecidablePred ReachesArguments := fun buf =>
  inferInstanceAs (Decidable (buf.getLast? = some 0 ∧ _))

/-- The request holds a NUL, and it is answered without a text of its own. -/
def Stays (buf : Block) : Prop := 0 ∈ buf ∧ ¬ ReachesArguments buf

instance : DecidablePred Stays := fun buf =>
  inferInstanceAs (Decidable (0 ∈ buf ∧ ¬ ReachesArguments buf))

/-- The globals with which a request is answered. -/
def Globals.answering (g : Globals) (buf : Block) : Globals :=
  if ReachesArguments buf then (g.note (0 ∉ buf)).setErrmsg usage else g.note (0 ∉ buf)

theorem bufArgs_eq (env : Env) {buf : Block} (g : Globals) (terminated : buf.getLast? = some 0) :
    ∃ buf', bufArgs env buf g =
      .ok (-1, buf', if ReachesArguments buf then g.setErrmsg usage else g) := by
  obtain ⟨text, back, rfl, plain⟩ := List.eq_append_cons_of_mem (List.mem_of_getLast? terminated)
  obtain ⟨tokens, run, reaches⟩ := tokenize_words plain back
  have string : cString (text ++ 0 :: back) = text := by
    rw [cString_append_nul, cString_of_notMem plain]
  have condition : ReachesArguments (text ++ 0 :: back) ↔ tokens.args ≠ none := by
    rw [ReachesArguments, string, reaches]
    exact and_iff_right terminated
  refine ⟨tokens.buf, ?_⟩
  rw [bufArgs, run, ok_bind]
  cases args : tokens.args with
  | none =>
      rw [if_neg fun h => condition.mp h args]
      rfl
  | some pair =>
      obtain ⟨argc, argv⟩ := pair
      have even := tokenize_even run args
      rw [if_pos (condition.mpr (by simp [args]))]
      dsimp only
      rw [cliArgs_usage env tokens.buf argv g (by omega), ok_bind]
      rfl

/-- A request that comes to its arguments is answered with the usage text, and any other one
with the text that is there. -/
theorem handleRequest_eq (env : Env) {buf : Block} (nonempty : buf ≠ []) (g : Globals) :
    handleRequest env buf buf.length g = .ok ((g.answering buf).respond
      (.err (-1) (cString (g.answering buf).errmsg)) none) := by
  obtain ⟨last, ending⟩ : ∃ last, buf.getLast? = some last :=
    ⟨buf.getLast nonempty, List.getLast?_eq_some_getLast nonempty⟩
  have loaded : load buf (buf.length - 1) = .ok last := by
    apply load_eq
    rw [← List.getLast?_eq_getElem?, ending]
  rw [handleRequest, loaded, ok_bind]
  by_cases terminated : last = 0
  · obtain ⟨buf', run⟩ := bufArgs_eq env (g.note (0 ∉ buf)) (terminated ▸ ending)
    rw [if_neg (not_not.mpr terminated), run, ok_bind]
    rfl
  · have noArguments : ¬ ReachesArguments buf := fun h => terminated (by simpa [ending] using h.1)
    rw [if_pos terminated, Globals.answering, if_neg noArguments]
    rfl

theorem outside_answering (g : Globals) (buf : Block) :
    (g.answering buf).outside = false ↔ g.outside = false ∧ Stays buf := by
  rw [Globals.answering, Stays]
  split
  · rename_i reaches
    refine iff_of_false ?_ fun stays => stays.2.2 reaches
    -- the usage text does not fit
    have exceeds : ((g.note (0 ∉ buf)).setErrmsg usage).outside =
        (g.outside || decide (0 ∉ buf) || true) := rfl
    rw [exceeds, Bool.or_true]
    exact Bool.noConfusion
  · rename_i stale
    rw [and_iff_left stale, Globals.note, Bool.or_eq_false_iff, decide_eq_false_iff_not, not_not]

theorem answering_of_stays {buf : Block} (stays : Stays buf) (g : Globals) :
    g.answering buf = g := by
  rw [Globals.answering, if_neg stays.2, Globals.note, decide_eq_false (not_not.mpr stays.1),
    Bool.or_false]

/-! ## What is printed on the way -/

theorem printf_fits {out : Stdout} {text : Block}
    (room : out.pending.length + text.length ≤ out.size) :
    (out.printf text).1 = [] ∧ (out.printf text).2.pending = out.pending ++ text := by
  rw [← List.length_append] at room
  simp only [Stdout.printf, dif_pos room, and_self]

theorem printf_over {out : Stdout} {text : Block}
    (exceeds : ¬ out.pending.length + text.length ≤ out.size) :
    ∃ written, (out.printf text).1 = [.printed written] := by
  rw [← List.length_append] at exceeds
  simp only [Stdout.printf, dif_neg exceeds]
  exact ⟨_, rfl⟩

theorem size_printf (out : Stdout) (text : Block) : (out.printf text).2.size = out.size := by
  rw [Stdout.printf]
  split <;> rfl

/-- The two lines that `send_fd` prints for the status -1. -/
def errorLine : Block := ascii "error fd_to_send:" ++ decimal (-1) ++ ascii "\n"

/-- They fit into the buffer. -/
def HasRoom (out : Stdout) : Prop :=
  out.pending.length + (errorLine ++ sendLine 1).length ≤ out.size

instance : DecidablePred HasRoom := fun out =>
  inferInstanceAs (Decidable (out.pending.length + (errorLine ++ sendLine 1).length ≤ out.size))

theorem send_err (out : Stdout) (msg : Block) :
    (Reply.err (-1) msg).send out =
      ((if msg = [] then [] else [.text msg]) ++ (out.printf errorLine).1 ++ [.status (-1)] ++
        ((out.printf errorLine).2.printf (sendLine 1)).1,
        ((out.printf errorLine).2.printf (sendLine 1)).2) := rfl

theorem send_of_hasRoom {out : Stdout} (room : HasRoom out) (msg : Block) :
    ((Reply.err (-1) msg).send out).1 = (Reply.err (-1) msg).items ∧
      ((Reply.err (-1) msg).send out).2.pending =
        out.pending ++ (errorLine ++ sendLine 1) := by
  rw [HasRoom, List.length_append] at room
  have first : out.pending.length + errorLine.length ≤ out.size := by omega
  obtain ⟨quiet, pending⟩ := printf_fits first
  have second : (out.printf errorLine).2.pending.length + (sendLine 1).length ≤
      (out.printf errorLine).2.size := by
    rw [pending, size_printf, List.length_append]
    omega
  obtain ⟨quiet', pending'⟩ := printf_fits second
  rw [send_err, quiet, quiet', pending', pending]
  exact ⟨by simp [Reply.items], List.append_assoc _ _ _⟩

theorem size_send (out : Stdout) (msg : Block) :
    ((Reply.err (-1) msg).send out).2.size = out.size := by
  rw [send_err, size_printf, size_printf]

def Sent.isPrinted : Sent → Bool
  | .printed _ => true
  | .text _ | .status _ | .descriptor _ => false

/-- The bytes of the reply are among what goes out. -/
theorem send_filter (out : Stdout) (msg : Block) :
    ((Reply.err (-1) msg).send out).1.filter (!·.isPrinted) = (Reply.err (-1) msg).items := by
  have lines (out : Stdout) (text : Block) : (out.printf text).1.filter (!·.isPrinted) = [] := by
    rw [Stdout.printf]
    split <;> rfl
  rw [send_err]
  simp only [List.filter_append, lines, Reply.items]
  split <;> rfl

theorem printed_of_not_hasRoom {out : Stdout} (full : ¬ HasRoom out) (msg : Block) :
    ∃ written, .printed written ∈ ((Reply.err (-1) msg).send out).1 := by
  rw [HasRoom, List.length_append] at full
  rw [send_err]
  by_cases first : out.pending.length + errorLine.length ≤ out.size
  · obtain ⟨quiet, pending⟩ := printf_fits first
    have exceeds : ¬ (out.printf errorLine).2.pending.length + (sendLine 1).length ≤
        (out.printf errorLine).2.size := by
      rw [pending, size_printf, List.length_append]
      omega
    obtain ⟨written, flushed⟩ := printf_over exceeds
    exact ⟨written, by simp [flushed]⟩
  · obtain ⟨written, flushed⟩ := printf_over first
    exact ⟨written, by simp [flushed]⟩

theorem not_printed_items (reply : Reply) (written : Block) : .printed written ∉ reply.items := by
  cases reply with
  | err errcode msg =>
      rw [Reply.items]
      split <;> simp
  | descriptor fd => simp [Reply.items]

/-! ## Histories -/

/-- A request in the server's buffer, with the answers of the file system to it. -/
structure Request where
  env : Env
  buf : Block
  nonempty : buf ≠ []

def Request.handle (request : Request) (g : Globals) : Except Fault Handled :=
  handleRequest request.env request.buf request.buf.length g

/-- The globals that a history of requests leaves. -/
def serveAll (g : Globals) : List Request → Except Fault Globals
  | [] => .ok g
  | request :: requests => do
      let handled ← request.handle g
      serveAll handled.globals requests

/-- The next request behind a history. -/
def handleAfter (g : Globals) (history : List Request) (next : Request) :
    Except Fault Handled := do
  let g ← serveAll g history
  next.handle g

/-- The call sends the reply and nothing else, and no access has gone outside up to its end. -/
def Sends (result : Except Fault Handled) (reply : Reply) : Prop :=
  ∃ handled, result = .ok handled ∧ handled.sent = reply.items ∧
    handled.globals.outside = false

/-- Behind both histories the request gets the same reply, and nothing but a reply. -/
def SameReply (g : Globals) (history history' : List Request) (next : Request) : Prop :=
  ∃ reply, Sends (handleAfter g history next) reply ∧ Sends (handleAfter g history' next) reply

/-- One call sends a reply and nothing else exactly if it has no text of its own and `stdout` has
room. -/
theorem sends_iff (next : Request) (g : Globals) (reply : Reply) :
    Sends (next.handle g) reply ↔
      g.outside = false ∧ Stays next.buf ∧ HasRoom g.stdout ∧
        reply.items = (Reply.err (-1) (cString g.errmsg)).items := by
  have run := handleRequest_eq next.env next.nonempty g
  constructor
  · rintro ⟨handled, run', sent, inside⟩
    rw [Request.handle, run] at run'
    cases run'
    obtain ⟨before, stays⟩ := (outside_answering g next.buf).mp inside
    rw [answering_of_stays stays] at sent
    have room : HasRoom g.stdout := by
      by_contra full
      obtain ⟨written, mem⟩ := printed_of_not_hasRoom full (cString g.errmsg)
      exact not_printed_items reply written (sent ▸ mem)
    exact ⟨before, stays, room, sent.symm.trans (send_of_hasRoom room _).1⟩
  · rintro ⟨before, stays, room, items⟩
    rw [answering_of_stays stays] at run
    exact ⟨_, run, (send_of_hasRoom room _).1.trans items.symm, before⟩

theorem serveAll_cons (g : Globals) (request : Request) (requests : List Request) :
    serveAll g (request :: requests) =
      serveAll ((g.answering request.buf).respond
        (.err (-1) (cString (g.answering request.buf).errmsg)) none).globals requests := by
  rw [serveAll, Request.handle, handleRequest_eq request.env request.nonempty, ok_bind]

/-- No request stops the server. As long as no access has gone outside, `errmsg` is as it was. -/
theorem serveAll_spec (g : Globals) (history : List Request) :
    ∃ g', serveAll g history = .ok g' ∧
      (g'.outside = false ↔ g.outside = false ∧ ∀ request ∈ history, Stays request.buf) ∧
      (g'.outside = false → g'.errmsg = g.errmsg) := by
  induction history generalizing g with
  | nil => exact ⟨g, rfl, by simp, fun _ => rfl⟩
  | cons request requests ih =>
      obtain ⟨g', rest, outside, errmsg⟩ := ih ((g.answering request.buf).respond
        (.err (-1) (cString (g.answering request.buf).errmsg)) none).globals
      have here := outside_answering g request.buf
      refine ⟨g', (serveAll_cons g request requests).trans rest, ?_, fun inside => ?_⟩
      · rw [outside, List.forall_mem_cons, ← and_assoc]
        exact and_congr_left fun _ => here
      · have stays := (here.mp (outside.mp inside).1).2
        have kept := congrArg Globals.errmsg (answering_of_stays stays g)
        exact (errmsg inside).trans kept

/-- No request so far has had a text of its own, nor has the next one, and there is room for the
lines that are printed for it. -/
def Quiet (g : Globals) (history : List Request) (next : Request) : Prop :=
  (∀ request ∈ history, Stays request.buf) ∧ Stays next.buf ∧
    ∀ g', serveAll g history = .ok g' → HasRoom g'.stdout

theorem sends_after_iff {g : Globals} (inside : g.outside = false) (history : List Request)
    (next : Request) (reply : Reply) :
    Sends (handleAfter g history next) reply ↔
      Quiet g history next ∧ reply.items = (Reply.err (-1) (cString g.errmsg)).items := by
  obtain ⟨g', run, outside, errmsg⟩ := serveAll_spec g history
  rw [and_iff_right inside] at outside
  rw [handleAfter, run, ok_bind, sends_iff, Quiet, run, outside]
  constructor
  · rintro ⟨stay, stays, room, items⟩
    refine ⟨⟨stay, stays, ?_⟩, errmsg (outside.mpr stay) ▸ items⟩
    rintro _ ⟨⟩
    exact room
  · rintro ⟨⟨stay, stays, room⟩, items⟩
    exact ⟨stay, stays, room g' rfl, (errmsg (outside.mpr stay)).symm ▸ items⟩

/-- The reply to a request is the same behind two histories, and there is nothing in it but the
reply, exactly if nobody has come to the arguments, each request has a NUL, and `stdout` has room in
both runs. -/
theorem sameReply_iff {size : Nat} (pos : 0 < size) (history history' : List Request)
    (next : Request) :
    SameReply (.start size pos) history history' next ↔
      Quiet (.start size pos) history next ∧ Quiet (.start size pos) history' next := by
  have sends (history : List Request) (reply : Reply) :=
    @sends_after_iff (.start size pos) rfl history next reply
  constructor
  · rintro ⟨reply, first, second⟩
    exact ⟨((sends history reply).mp first).1, ((sends history' reply).mp second).1⟩
  · rintro ⟨quiet, quiet'⟩
    exact ⟨_, (sends history _).mpr ⟨quiet, rfl⟩, (sends history' _).mpr ⟨quiet', rfl⟩⟩

/-- The request `f`, which has one word. -/
def oneWord : Request := ⟨.opening, [102, 0], List.cons_ne_nil _ _⟩

/-- A request without words. -/
def blank : Request := ⟨.opening, [0], List.cons_ne_nil _ _⟩

/-- A blank request behind another one and behind none. -/
theorem sameReply_blank : SameReply (.start 4096 (by decide)) [blank] [] blank := by
  refine (sameReply_iff (by decide) [blank] [] blank).mpr ⟨⟨?_, by decide, ?_⟩, ⟨?_, by decide, ?_⟩⟩
  · exact List.forall_mem_singleton.mpr (by decide)
  · intro g' run
    rw [serveAll_cons] at run
    cases run
    decide
  · exact List.forall_mem_nil _
  · intro g' run
    cases run
    decide

/-- The usage text for the request `f` comes again as the reply to a blank one. -/
theorem usage_leaks :
    (∃ handled, handleAfter .init [] blank = .ok handled ∧ handled.reply = .err (-1) []) ∧
      (∃ handled, handleAfter .init [oneWord] blank = .ok handled ∧
        handled.reply = .err (-1) usage) ∧
      ¬ SameReply .init [] [oneWord] blank := by
  have inside : Globals.init.outside = false := rfl
  have answer (g : Globals) :
      blank.handle g = .ok (g.respond (.err (-1) (cString g.errmsg)) none) := by
    rw [Request.handle, handleRequest_eq _ blank.nonempty, answering_of_stays (by decide)]
  have behind : ∃ g, serveAll .init [oneWord] = .ok g ∧ g.errmsg = strcpy [] usage := by
    refine ⟨_, serveAll_cons .init oneWord [], ?_⟩
    show (Globals.init.answering oneWord.buf).errmsg = strcpy [] usage
    rw [Globals.answering, if_pos (by decide)]
    rfl
  obtain ⟨g, run, text⟩ := behind
  refine ⟨⟨_, answer .init, rfl⟩, ⟨g.respond (.err (-1) (cString g.errmsg)) none, ?_, ?_⟩, ?_⟩
  · rw [handleAfter, run, ok_bind, answer]
  · rw [Globals.respond, text, cString_strcpy_usage]
  · rintro ⟨reply, -, second⟩
    obtain ⟨⟨stay, -⟩, -⟩ := (sends_after_iff inside [oneWord] blank reply).mp second
    exact absurd (stay oneWord List.mem_cons_self) (by decide)

end UnixProgramming.OpenServer
