import UnixProgramming.OpenServer.History

/-!
# `buf_args` as a tokenizer

`buf_args` is given a function for the arguments, and it is meant to pass it the tokens of the
buffer. It counts every token behind the first one twice, so that only every other entry of `argv`
is assigned, and its limit is reached with half of the tokens that `argv` has room for.
-/

namespace UnixProgramming.OpenServer

open CMemory Fallible Strtok

/-- A call of `optfunc`, with the buffer that `argv` points into. -/
structure OptCall where
  argc : Nat
  argv : List (Option Nat)
  buf : Block

/-- The strings of the arguments, where they are assigned. -/
def OptCall.strings (call : OptCall) : List (Option Block) :=
  (call.argv.take call.argc).map (Option.map fun p => cString (call.buf.drop p))

/-- `buf_args(buf, optfunc)`: its value and the calls of `optfunc`. -/
def bufArgsWith (optfunc : OptCall → Int) (buf : Block) : Except Fault (Int × List OptCall) := do
  let tokens ← tokenize buf
  match tokens.args with
  | none => return (-1, [])
  | some (argc, argv) =>
      let call : OptCall := ⟨argc, argv, tokens.buf⟩
      return (optfunc call, [call])

/-- No argument or too many of them are refused without a call. Otherwise the arguments of one
call are the tokens. -/
def TokenizesRight (optfunc : OptCall → Int) (tokens : List Block) (r : Int × List OptCall) :
    Prop :=
  if tokens = [] ∨ MAXARGCNUM - 1 < tokens.length then r = (-1, [])
  else ∃ call, r = (optfunc call, [call]) ∧ call.argc = tokens.length ∧
    call.strings = tokens.map some

/-- Entry 1 is passed over. -/
theorem bufArgsLoop_second {buf : Block} {save argc : Nat} {argv : List (Option Nat)}
    (second : argv[1]? = some none) {tokens : Tokens}
    (h : bufArgsLoop buf save argc argv = .ok tokens) {n : Nat} {args : List (Option Nat)}
    (result : tokens.args = some (n, args)) : args[1]? = some none := by
  fun_induction bufArgsLoop buf save argc argv with
  | case1 => cases h
  | case2 =>
      cases h
      cases result
      exact second
  | case3 =>
      cases h
      cases result
  | case4 => cases h
  | case5 buf save argc argv ptr buf' save' called more argv' stored ih =>
      refine ih ?_ h
      rw [(store_ok stored).2, List.getElem?_set_ne (by omega)]
      exact second

theorem tokenize_second {buf : Block} {tokens : Tokens} (h : tokenize buf = .ok tokens)
    {n : Nat} {args : List (Option Nat)} (result : tokens.args = some (n, args)) :
    args[1]? = some none := by
  obtain ⟨first, -, h⟩ := bind_ok h
  split at h
  · cases h
    cases result
  · obtain ⟨argv, stored, h⟩ := bind_ok h
    refine bufArgsLoop_second ?_ h result
    cases stored
    rfl

/-- No call has the tokens for its arguments: their number would be even, and the second of them
is not assigned. -/
theorem strings_ne_tokens {buf : Block} {tokens : Tokens} (h : tokenize buf = .ok tokens)
    {argc : Nat} {argv : List (Option Nat)} (args : tokens.args = some (argc, argv))
    {words : List Block} (nonempty : words ≠ []) (count : argc = words.length) :
    OptCall.strings ⟨argc, argv, tokens.buf⟩ ≠ words.map some := by
  intro same
  have even := tokenize_even h args
  have positive := List.length_pos_iff.mpr nonempty
  have two : 1 < argc := by omega
  have second : (OptCall.strings ⟨argc, argv, tokens.buf⟩)[1]? = some none := by
    rw [OptCall.strings, List.getElem?_map, List.getElem?_take_of_lt two,
      tokenize_second h args]
    rfl
  rw [same, List.getElem?_map, List.getElem?_eq_getElem (count ▸ two)] at second
  cases second

/-- `buf_args` does what it should exactly on a buffer without tokens and on one with too many
of them. -/
theorem bufArgsWith_right_iff (optfunc : OptCall → Int) {buf : Block} (terminated : 0 ∈ buf) :
    ∃ r, bufArgsWith optfunc buf = .ok r ∧
      (TokenizesRight optfunc (wordsOf WHITE (cString buf)) r ↔
        wordsOf WHITE (cString buf) = [] ∨
          MAXARGCNUM - 1 < (wordsOf WHITE (cString buf)).length) := by
  obtain ⟨text, back, rfl, plain⟩ := List.eq_append_cons_of_mem terminated
  rw [cString_append_nul, cString_of_notMem plain]
  obtain ⟨tokens, run, called⟩ := tokenize_words plain back
  rw [bufArgsWith, run, ok_bind]
  cases args : tokens.args with
  | none =>
      refine ⟨_, rfl, ?_⟩
      rw [TokenizesRight]
      split
      · rename_i refused
        exact iff_of_true rfl refused
      · rename_i admitted
        refine iff_of_false ?_ admitted
        rintro ⟨call, same, -⟩
        cases congrArg Prod.snd same
  | some pair =>
      obtain ⟨argc, argv⟩ := pair
      obtain ⟨positive, few⟩ := called.mp (by simp [args])
      have nonempty : wordsOf WHITE text ≠ [] := List.length_pos_iff.mp positive
      have admitted : ¬ (wordsOf WHITE text = [] ∨
          MAXARGCNUM - 1 < (wordsOf WHITE text).length) := by
        rintro (empty | many)
        · exact nonempty empty
        · simp only [MAXARGCNUM] at few many
          omega
      refine ⟨_, rfl, iff_of_false ?_ admitted⟩
      rw [TokenizesRight, if_neg admitted]
      rintro ⟨call, same, count, strings⟩
      cases congrArg Prod.snd same
      exact strings_ne_tokens run args nonempty count strings

/-- A buffer of separators is refused. -/
theorem bufArgsWith_right_blank :
    ∃ r, bufArgsWith (fun call => call.argc) [9, 10, 0] = .ok r ∧
      TokenizesRight (fun call => call.argc) [] r := by
  obtain ⟨r, run, right⟩ := bufArgsWith_right_iff (fun call => call.argc)
    (by decide : 0 ∈ ([9, 10, 0] : Block))
  have blank : wordsOf WHITE (cString [9, 10, 0]) = [] := by decide
  rw [blank] at right
  exact ⟨r, run, right.mpr (.inl rfl)⟩

/-- One token `f`: the function is called without arguments. -/
theorem bufArgsWith_drops_token :
    bufArgsWith (fun call => call.argc) [102, 0] =
        .ok (0, [⟨0, some 0 :: List.replicate 49 none, [102, 0]⟩]) ∧
      wordsOf WHITE (cString [102, 0]) = [[102]] ∧
      ∀ r, bufArgsWith (fun call => call.argc) [102, 0] = .ok r →
        ¬ TokenizesRight (fun call => call.argc) [[102]] r := by
  have run : bufArgsWith (fun call => call.argc) [102, 0] =
      .ok (0, [⟨0, some 0 :: List.replicate 49 none, [102, 0]⟩]) := by
    have ended : bufArgsLoop [102, 0] 1 0 (some 0 :: List.replicate 49 none) =
        .ok ⟨[102, 0], some (0, some 0 :: List.replicate 49 none)⟩ := by
      rw [bufArgsLoop]
      rfl
    show (bufArgsLoop [102, 0] 1 0 (some 0 :: List.replicate 49 none) >>= fun tokens => _) = _
    rw [ended]
    rfl
  refine ⟨run, by decide, fun r run' => ?_⟩
  rw [run] at run'
  cases run'
  rw [TokenizesRight, if_neg (by decide)]
  rintro ⟨call, same, count, -⟩
  cases congrArg Prod.snd same
  cases count

end UnixProgramming.OpenServer
