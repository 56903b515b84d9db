import UnixProgramming.OpenServer.Request

/-!
# What the server makes of a request

`buf_args` counts two for every token behind the first, so `cli_args` never sees the
three arguments that it asks for. On a request of `cs_open` there is not even a second
token: the client separates with spaces, and a space is not in `WHITE`.
-/

namespace UnixProgramming.OpenServer

open CMemory Fallible Strtok

/-- `argc` stays even. -/
theorem bufArgsLoop_even {buf : Block} {save argc : Nat} {argv : List (Option Nat)}
    (even : argc % 2 = 0) {tokens : Tokens} (h : bufArgsLoop buf save argc argv = .ok tokens)
    {n : Nat} {args : List (Option Nat)} (some : tokens.args = some (n, args)) : n % 2 = 0 := by
  fun_induction bufArgsLoop buf save argc argv with
  | case1 => cases h
  | case2 =>
      cases h
      cases some
      exact even
  | case3 =>
      cases h
      cases some
  | case4 => cases h
  | case5 buf save argc argv ptr buf' save' called more argv' stored ih =>
      exact ih (by omega) h

theorem tokenize_even {buf : Block} {tokens : Tokens} (h : tokenize buf = .ok tokens)
    {n : Nat} {args : List (Option Nat)} (some : tokens.args = some (n, args)) : n % 2 = 0 := by
  obtain ⟨first, -, h⟩ := bind_ok h
  split at h
  · cases h
    cases some
  · obtain ⟨argv, -, h⟩ := bind_ok h
    exact bufArgsLoop_even rfl h some

/-- With a number of arguments other than three, `cli_args` stores the usage text. -/
theorem cliArgs_usage (env : Env) (buf : Block) {argc : Nat} (argv : List (Option Nat))
    (g : Globals) (h : argc ≠ 3) :
    cliArgs env buf argc argv g = .ok (-1, g.setErrmsg usage) := by
  simp [cliArgs, h]

/-- `buf_args` fails on every buffer. -/
theorem bufArgs_fails {env : Env} {buf buf' : Block} {g g' : Globals} {ret : Int}
    (h : bufArgs env buf g = .ok (ret, buf', g')) : ret = -1 := by
  obtain ⟨tokens, run, h⟩ := bind_ok h
  split at h
  · cases h
    rfl
  · rename_i argc argv some
    have even := tokenize_even run some
    rw [cliArgs_usage env tokens.buf argv g (by omega)] at h
    cases h
    rfl

/-- The server opens no file, whatever it is sent. -/
theorem handleRequest_opens_nothing {env : Env} {buf : Block} {nread : Nat} {g : Globals}
    {handled : Handled} (h : handleRequest env buf nread g = .ok handled) :
    handled.opened = none := by
  obtain ⟨last, -, h⟩ := bind_ok h
  split at h
  · cases h
    rfl
  · obtain ⟨⟨ret, buf', g'⟩, run, h⟩ := bind_ok h
    obtain rfl := bufArgs_fails run
    cases h
    rfl

/-- A pathname is not empty and holds no separator of either side and no NUL. -/
structure PlainName (name : Block) : Prop where
  nonempty : name ≠ []
  plain : ∀ c ∈ name, c ≠ 32 ∧ c ∉ WHITE ∧ c ≠ 0

/-- The line of a request before its NUL. -/
def requestLine (name : Block) (oflag : Int) : Block :=
  ascii "open " ++ name ++ (ascii " " ++ decimal oflag)

theorem csOpenRequest_eq {name : Block} (h : PlainName name) (oflag : Int) :
    csOpenRequest name oflag = requestLine name oflag ++ [0] := by
  rw [csOpenRequest, cString_of_notMem fun mem => (h.plain 0 mem).2.2 rfl, requestLine]
  simp [CL_OPEN, ascii, ofChars]

theorem not_white_of_le {c : UInt8} (h : 32 ≤ c) : c ∉ WHITE ∧ c ≠ 0 := by
  have low : ∀ d ∈ 0 :: WHITE, ¬ 32 ≤ d := by simp [WHITE]
  constructor
  · intro white
    exact low c (List.mem_cons_of_mem 0 white) h
  · intro nul
    exact low c (nul ▸ List.mem_cons_self) h

/-- The whole line is one token of the server. -/
theorem requestLine_plain {name : Block} (h : PlainName name) (oflag : Int) :
    ∀ c ∈ requestLine name oflag, c ∉ WHITE ∧ c ≠ 0 := by
  have keyword : ∀ c ∈ ascii "open ", 32 ≤ c := by simp [ascii, ofChars]
  have space : ∀ c ∈ ascii " ", 32 ≤ c := by simp [ascii, ofChars]
  intro c hc
  simp only [requestLine, List.mem_append] at hc
  obtain (inKeyword | inName) | (inSpace | inNumber) := hc
  · exact not_white_of_le (keyword c inKeyword)
  · exact (h.plain c inName).2
  · exact not_white_of_le (space c inSpace)
  · have printable := decimal_printable oflag c inNumber
    exact not_white_of_le (UInt8.le_trans (by decide) printable)

/-- `strtok` finds the line and then nothing more. -/
theorem tokenize_request {name : Block} (h : PlainName name) (oflag : Int) :
    ∃ argv, tokenize (csOpenRequest name oflag) =
      .ok ⟨csOpenRequest name oflag, some (0, argv)⟩ := by
  have nonempty : requestLine name oflag ≠ [] := by simp [requestLine, ascii, ofChars]
  have first : strtok WHITE (requestLine name oflag ++ [0]) 0 =
      .ok ⟨some 0, requestLine name oflag ++ [0], (requestLine name oflag).length⟩ := by
    simpa using @strtok_word WHITE [] [] _ [] 0 (by simp) nonempty (requestLine_plain h oflag)
      (.inr rfl)
  have second : strtok WHITE (requestLine name oflag ++ [0]) (requestLine name oflag).length =
      .ok ⟨none, requestLine name oflag ++ [0], (requestLine name oflag).length⟩ := by
    simpa using @strtok_end WHITE (requestLine name oflag) [] [] (by simp) (by decide)
  have array : store (List.replicate MAXARGCNUM none) 0 (some 0) =
      .ok (some 0 :: List.replicate (MAXARGCNUM - 1) none) := rfl
  refine ⟨some 0 :: List.replicate (MAXARGCNUM - 1) none, ?_⟩
  rw [csOpenRequest_eq h, tokenize, first, ok_bind]
  dsimp only
  rw [array, ok_bind, bufArgsLoop, second]

/-- The usage text is what `errmsg` then holds. -/
theorem cString_strcpy_usage (errmsg : Block) : cString (strcpy errmsg usage) = usage := by
  rw [strcpy, fill, List.append_assoc, List.singleton_append, cString_append_nul]
  decide

/-- The request is answered with the usage text. -/
theorem handleRequest_usage (env : Env) {name : Block} (h : PlainName name) (oflag : Int)
    (g : Globals) :
    ∃ handled, handleRequest env (csOpenRequest name oflag) (csOpenRequest name oflag).length g =
      .ok handled ∧ handled.reply = .err (-1) usage := by
  obtain ⟨argv, tokens⟩ := tokenize_request h oflag
  have terminated : load (csOpenRequest name oflag) ((csOpenRequest name oflag).length - 1) =
      .ok 0 := by
    rw [csOpenRequest_eq h, List.length_append, List.length_singleton, Nat.add_sub_cancel]
    exact load_append_cons _ [] 0
  have args (g : Globals) : bufArgs env (csOpenRequest name oflag) g =
      .ok (-1, csOpenRequest name oflag, g.setErrmsg usage) := by
    rw [bufArgs, tokens, ok_bind]
    dsimp only
    rw [cliArgs_usage env _ argv g (by decide), ok_bind]
    rfl
  refine ⟨_, by rw [handleRequest, terminated, ok_bind, if_neg (by simp), args]; rfl, ?_⟩
  exact congrArg _ (cString_strcpy_usage g.errmsg)

/-- The server calls `open` with the name and the flag, and does not send the usage text. -/
structure Understood (name : Block) (oflag : Int) (handled : Handled) : Prop where
  opened : handled.opened = some (name, oflag)
  notUsage : handled.reply ≠ .err (-1) usage

/-- No request of the client is understood: each is answered with the usage text, and no
file is opened. -/
theorem request_not_understood (env : Env) (g : Globals) {name : Block} (h : PlainName name)
    (oflag : Int) :
    ∃ handled, handleRequest env (csOpenRequest name oflag) (csOpenRequest name oflag).length g =
      .ok handled ∧ handled.opened = none ∧ handled.reply = .err (-1) usage ∧
      ¬ Understood name oflag handled := by
  obtain ⟨handled, run, reply⟩ := handleRequest_usage env h oflag g
  exact ⟨handled, run, handleRequest_opens_nothing run, reply, fun ok => ok.notUsage reply⟩

/-- A server whose every `open` succeeds with descriptor 3. -/
def Env.opening : Env := ⟨0, fun _ _ => .ok 3⟩

/-- The globals of a server that has just been started, with a buffer of `size` bytes for
`stdout`. -/
def Globals.start (size : Nat) (pos : 0 < size) : Globals :=
  ⟨[], 0, none, ⟨size, [], pos, Nat.zero_le size⟩, false⟩

def Globals.init : Globals := .start 4096 (by decide)

theorem request_not_understood_f :
    ∃ handled, handleRequest .opening (csOpenRequest [102] 0) (csOpenRequest [102] 0).length .init =
      .ok handled ∧ handled.opened = none ∧ handled.reply = .err (-1) usage ∧
      ¬ Understood [102] 0 handled :=
  request_not_understood .opening .init ⟨by decide, by simp [WHITE]⟩ 0

/-- The request `open f 0` is nine bytes with its NUL, and its file is not opened. -/
theorem open_f_rejected :
    PlainName (ascii "f") ∧ csOpenRequest (ascii "f") 0 = ascii "open f 0" ++ [0] ∧
      ∃ handled, handleRequest .opening (ascii "open f 0" ++ [0]) 9 .init = .ok handled ∧
        ¬ Understood (ascii "f") 0 handled := by
  have plain : PlainName (ascii "f") := ⟨by decide, by simp [ascii, ofChars, WHITE]⟩
  have bytes : csOpenRequest (ascii "f") 0 = ascii "open f 0" ++ [0] := by decide
  obtain ⟨handled, run, reply⟩ := handleRequest_usage .opening plain 0 .init
  rw [bytes] at run
  exact ⟨plain, bytes, handled, run, fun ok => ok.notUsage reply⟩

end UnixProgramming.OpenServer
