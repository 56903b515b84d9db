import UnixProgramming.OpenServer.History

/-!
# The assignments of `buf_args`

The limit of `buf_args` is tested behind the first of two counts, and the entry that is assigned is
the one behind the second. The limit is one below the size of `argv`, so the entry is still in the
array. A version of the loop that notes its assignments and its tokens has this as an invariant.
-/

namespace UnixProgramming.OpenServer

open CMemory Fallible Strtok

/-- The tokens with the positions in `argv` that were assigned, in order, and the number of tokens
that `strtok` has returned. -/
structure Noted where
  tokens : Tokens
  assigned : List Nat
  taken : Nat

/-- `bufArgsLoop` with its notes. -/
def notedLoop (buf : Block) (save argc : Nat) (argv : List (Option Nat)) (assigned : List Nat)
    (taken : Nat) : Except Fault Noted :=
  match strtok WHITE buf save with
  | .error f => .error f
  | .ok ⟨none, buf, _⟩ => .ok ⟨⟨buf, some (argc, argv)⟩, assigned, taken⟩
  | .ok ⟨some ptr, buf, save⟩ =>
      if MAXARGCNUM - 1 ≤ argc + 1 then .ok ⟨⟨buf, none⟩, assigned, taken + 1⟩
      else
        match store argv (argc + 2) (some ptr) with
        | .error f => .error f
        | .ok argv => notedLoop buf save (argc + 2) argv (assigned ++ [argc + 2]) (taken + 1)
termination_by MAXARGCNUM - argc
decreasing_by simp [MAXARGCNUM] at *; omega

/-- `tokenize` with its notes. -/
def notedTokenize (buf : Block) : Except Fault Noted := do
  let first ← strtok WHITE buf 0
  match first.token with
  | none => return ⟨⟨first.buf, none⟩, [], 0⟩
  | some _ =>
      let argv ← store (List.replicate MAXARGCNUM none) 0 (some 0)
      notedLoop first.buf first.save 0 argv [0] 1

/-- Without the notes it is the loop. -/
theorem notedLoop_tokens (buf : Block) (save argc : Nat) (argv : List (Option Nat))
    (assigned : List Nat) (taken : Nat) :
    (notedLoop buf save argc argv assigned taken).map Noted.tokens =
      bufArgsLoop buf save argc argv := by
  fun_induction notedLoop buf save argc argv assigned taken with
  | case1 buf save argc argv assigned taken f called =>
      rw [bufArgsLoop, called]
      rfl
  | case2 buf save argc argv assigned taken buf' save' called =>
      rw [bufArgsLoop, called]
      rfl
  | case3 buf save argc argv assigned taken ptr buf' save' called full =>
      rw [bufArgsLoop, called]
      exact (if_pos full).symm
  | case4 buf save argc argv assigned taken ptr buf' save' called more f stored =>
      rw [bufArgsLoop, called]
      dsimp only
      rw [if_neg more, stored]
      rfl
  | case5 buf save argc argv assigned taken ptr buf' save' called more argv' stored ih =>
      rw [bufArgsLoop, called]
      dsimp only
      rw [if_neg more, stored]
      exact ih

theorem notedTokenize_tokens (buf : Block) :
    (notedTokenize buf).map Noted.tokens = tokenize buf := by
  rw [notedTokenize, tokenize]
  cases strtok WHITE buf 0 with
  | error f => rfl
  | ok first =>
      rw [ok_bind, ok_bind]
      cases first.token with
      | none => rfl
      | some ptr => exact notedLoop_tokens _ _ _ _ _ _

/-- Every assignment was inside of `argv`, and `argc` has counted each token but the first one
twice. -/
structure Inside (argc : Nat) (assigned : List Nat) (taken : Nat) : Prop where
  entries : ∀ i ∈ assigned, i ≤ MAXARGCNUM - 1
  count : 2 * taken = argc + 2
  last : argc ≤ MAXARGCNUM - 1

/-- The entry behind the second count is inside, if the limit is not reached by the first one. -/
theorem Inside.assign {argc : Nat} {assigned : List Nat} {taken : Nat}
    (inside : Inside argc assigned taken) (more : ¬ MAXARGCNUM - 1 ≤ argc + 1) :
    Inside (argc + 2) (assigned ++ [argc + 2]) (taken + 1) := by
  have room : argc + 2 ≤ MAXARGCNUM - 1 := by omega
  refine ⟨fun i mem => ?_, ?_, room⟩
  · obtain earlier | here := List.mem_append.mp mem
    · exact inside.entries i earlier
    · rw [List.mem_singleton.mp here]
      exact room
  · have count := inside.count
    omega

theorem notedLoop_inside {buf : Block} {save argc : Nat} {argv : List (Option Nat)}
    {assigned : List Nat} {taken : Nat} (inside : Inside argc assigned taken) {noted : Noted}
    (run : notedLoop buf save argc argv assigned taken = .ok noted) :
    (∀ i ∈ noted.assigned, i ≤ MAXARGCNUM - 1) ∧ 2 * noted.taken ≤ MAXARGCNUM + 3 := by
  fun_induction notedLoop buf save argc argv assigned taken with
  | case1 => cases run
  | case2 buf save argc argv assigned taken buf' save' called =>
      cases run
      have count := inside.count
      have last := inside.last
      exact ⟨inside.entries, by dsimp only; omega⟩
  | case3 buf save argc argv assigned taken ptr buf' save' called full =>
      cases run
      have count := inside.count
      have last := inside.last
      refine ⟨inside.entries, ?_⟩
      simp only [MAXARGCNUM] at last ⊢
      omega
  | case4 => cases run
  | case5 buf save argc argv assigned taken ptr buf' save' called more argv' stored ih =>
      exact ih (inside.assign more) run

/-- The notes of a whole call. -/
theorem notedTokenize_inside {buf : Block} {noted : Noted}
    (run : notedTokenize buf = .ok noted) :
    (∀ i ∈ noted.assigned, i ≤ MAXARGCNUM - 1) ∧ noted.taken ≤ MAXARGCNUM := by
  obtain ⟨first, -, run⟩ := bind_ok run
  cases token : first.token with
  | none =>
      rw [token] at run
      cases run
      exact ⟨nofun, Nat.zero_le _⟩
  | some ptr =>
      rw [token] at run
      obtain ⟨argv, -, run⟩ := bind_ok run
      have start : Inside 0 [0] 1 := ⟨by simp, rfl, Nat.zero_le _⟩
      obtain ⟨entries, taken⟩ := notedLoop_inside start run
      refine ⟨entries, ?_⟩
      simp only [MAXARGCNUM] at taken ⊢
      omega

/-- `buf_args` returns from every buffer with a NUL, and it has assigned entries of `argv` only
and taken no more tokens than `argv` has entries. -/
theorem bufArgs_inside_argv {buf : Block} (terminated : 0 ∈ buf) :
    ∃ noted, notedTokenize buf = .ok noted ∧ tokenize buf = .ok noted.tokens ∧
      (∀ i ∈ noted.assigned, i ≤ MAXARGCNUM - 1) ∧ noted.taken ≤ MAXARGCNUM := by
  obtain ⟨text, back, rfl, plain⟩ := List.eq_append_cons_of_mem terminated
  obtain ⟨tokens, returns, -⟩ := tokenize_words plain back
  have erased := notedTokenize_tokens (text ++ 0 :: back)
  cases run : notedTokenize (text ++ 0 :: back) with
  | error f =>
      rw [run, returns] at erased
      cases erased
  | ok noted =>
      rw [run] at erased
      exact ⟨noted, rfl, erased.symm, notedTokenize_inside run⟩

/-- Two tokens and a separator at the end. -/
theorem bufArgs_inside_argv_two :
    ∃ noted, notedTokenize [97, 9, 98, 10, 0] = .ok noted ∧
      tokenize [97, 9, 98, 10, 0] = .ok noted.tokens ∧
      (∀ i ∈ noted.assigned, i ≤ MAXARGCNUM - 1) ∧ noted.taken ≤ MAXARGCNUM :=
  bufArgs_inside_argv (by decide)

end UnixProgramming.OpenServer
