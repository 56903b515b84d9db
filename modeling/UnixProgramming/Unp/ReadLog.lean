import UnixProgramming.Unp.MyRead

/-!
# The calls of `my_read` inside `readline_v3`

`readlineV3Logged` is the loop of `readline_v3` with a log of its calls of `my_read`. What
they deliver cannot be seen in the caller's buffer, where all bytes go to one place.
The items that a call takes are those of one line, unless it meets a failure.
-/

namespace UnixProgramming.Unp

open CMemory Descriptor Fallible

/-- The loop of `readline_v3` as in `readlineV3Loop`, with the log. -/
def readlineV3Logged (left : Nat) (n : Int) (c : UInt8) (vptr : Block) (st : ReadState)
    (fd : Script) : Except Fault (Line × ReadState × List MyReadCall) :=
  match left with
  | 0 => do
      let vptr ← store vptr 0 0
      return (⟨n, vptr, fd⟩, st, [])
  | left + 1 => do
      let r ← myRead fd st c
      let call : MyReadCall := ⟨refill fd st, r.ret, r.c⟩
      if r.ret = 1 then
        let vptr ← store vptr 0 r.c
        if r.c = newline then
          let vptr ← store vptr 0 0
          return (⟨n, vptr, r.fd⟩, r.state, [call])
        else
          let (line, st, log) ← readlineV3Logged left (n + 1) r.c vptr r.state r.fd
          return (line, st, call :: log)
      else if r.ret = 0 then
        let vptr ← store vptr 0 0
        return (⟨n - 1, vptr, r.fd⟩, r.state, [call])
      else
        return (⟨-1, vptr, r.fd⟩, r.state, [call])

/-- Without its log this is the loop of `readline_v3`. -/
theorem map_readlineV3Logged (left : Nat) (n : Int) (c : UInt8) (vptr : Block) (st : ReadState)
    (fd : Script) :
    (readlineV3Logged left n c vptr st fd).map (fun r => (r.1, r.2.1)) =
      readlineV3Loop left n c vptr st fd := by
  induction left generalizing n c vptr st fd with
  | zero =>
      rw [readlineV3Logged, readlineV3Loop]
      cases store vptr 0 0 <;> rfl
  | succ left ih =>
      rw [readlineV3Logged, readlineV3Loop]
      cases myRead fd st c with
      | error f => rfl
      | ok r =>
          simp only [ok_bind]
          split
          · cases store vptr 0 r.c with
            | error f => rfl
            | ok vptr' =>
                simp only [ok_bind]
                split
                · cases store vptr' 0 0 <;> rfl
                · rw [← ih]
                  cases readlineV3Logged left (n + 1) r.c vptr' r.state r.fd <;> rfl
          · split
            · cases store vptr 0 0 <;> rfl
            · rfl

/-- Each call delivers from the bytes that have been read, in their order: `buffered` have
been read before the log and not been delivered, and `left` after it. -/
inductive Sourced : List UInt8 → List MyReadCall → List UInt8 → Prop
  | nil (buffered : List UInt8) : Sourced buffered [] buffered
  | cons {buffered buffered' left : List UInt8} {call : MyReadCall} {log : List MyReadCall}
      (next : call.delivered ++ buffered' = buffered ++ call.received)
      (rest : Sourced buffered' log left) : Sourced buffered (call :: log) left

theorem Sourced.trans {buffered buffered' left : List UInt8} {log log' : List MyReadCall}
    (first : Sourced buffered log buffered') (second : Sourced buffered' log' left) :
    Sourced buffered (log ++ log') left := by
  induction first with
  | nil => exact second
  | cons next _ ih => exact .cons next (ih second)

/-! ## Lines of items -/

/-- The bytes of the next line: up to `left` of them, up to an end of file. -/
def lineOf : Nat → List Item → List UInt8
  | left + 1, .byte c :: items => if c = newline then [c] else c :: lineOf left items
  | _, _ => []

/-- What is behind that line. An end of file that ends it is taken with it. -/
def behindLine : Nat → List Item → List Item
  | 0, items => items
  | _, [] => []
  | left + 1, .byte c :: items => if c = newline then items else behindLine left items
  | _, .eof :: items | _, .error _ :: items => items

/-- The line is cut by a failure. -/
def lineFails : Nat → List Item → Prop
  | left + 1, .byte c :: items => c ≠ newline ∧ lineFails left items
  | _ + 1, .error _ :: _ => True
  | _, _ => False

theorem lineFails_mem {left : Nat} {items : List Item} (h : lineFails left items) :
    ∃ code, .error code ∈ items := by
  induction left generalizing items with
  | zero => exact h.elim
  | succ left ih =>
      match items with
      | [] => exact h.elim
      | .eof :: _ => exact h.elim
      | .error code :: _ => exact ⟨code, List.mem_cons_self⟩
      | .byte c :: items =>
          obtain ⟨code, mem⟩ := ih h.2
          exact ⟨code, List.mem_cons_of_mem _ mem⟩

theorem behindLine_suffix (left : Nat) (items : List Item) : behindLine left items <:+ items := by
  induction left generalizing items with
  | zero => exact List.suffix_refl _
  | succ left ih =>
      match items with
      | [] => exact List.suffix_refl _
      | .eof :: items => exact List.suffix_cons _ _
      | .error code :: items => exact List.suffix_cons _ _
      | .byte c :: items =>
          rw [behindLine]
          split
          · exact List.suffix_cons _ _
          · exact (ih items).trans (List.suffix_cons _ _)

theorem lineOf_append_behindLine (left : Nat) (items : List Item) :
    lineOf left items ++ (behindLine left items).flatMap Item.bytes =
      items.flatMap Item.bytes := by
  induction left generalizing items with
  | zero => rfl
  | succ left ih =>
      match items with
      | [] => rfl
      | .eof :: items => rfl
      | .error code :: items => rfl
      | .byte c :: items =>
          rw [lineOf, behindLine, List.flatMap_cons, Item.bytes]
          split
          · rfl
          · rw [List.cons_append, ih, List.singleton_append]

/-- What a call of `readline_v3` does when its line is not cut by a failure. -/
structure LineSpec (left : Nat) (fd : Script) (st : ReadState) (line : Line) (st' : ReadState)
    (log : List MyReadCall) : Prop where
  valid : st'.Valid
  behind : pending line.fd st' = behindLine left (pending fd st)
  delivered : deliveredIn log = lineOf left (pending fd st)
  sourced : Sourced st.unread log st'.unread
  noFailure : ∀ call ∈ log, ¬ call.Failed

theorem store_zero {vptr : Block} (room : vptr ≠ []) (c : UInt8) :
    ∃ vptr', store vptr 0 c = .ok vptr' ∧ vptr' ≠ [] := by
  obtain ⟨old, tail, rfl⟩ := List.exists_cons_of_ne_nil room
  exact ⟨c :: tail, store_append_cons [] tail old c, List.cons_ne_nil _ _⟩

theorem readlineV3Logged_spec (left : Nat) (n : Int) (c : UInt8) {vptr : Block} {st : ReadState}
    {fd : Script} (room : vptr ≠ []) (valid : st.Valid)
    (whole : ¬ lineFails left (pending fd st)) :
    ∃ line st' log, readlineV3Logged left n c vptr st fd = .ok (line, st', log) ∧
      LineSpec left fd st line st' log := by
  induction left generalizing n c vptr st fd with
  | zero =>
      obtain ⟨vptr', put, -⟩ := store_zero room 0
      exact ⟨_, _, _, by rw [readlineV3Logged, put]; rfl, valid, by simp [behindLine],
        by simp [deliveredIn, lineOf], .nil _, by simp⟩
  | succ left ih =>
      obtain ⟨r, call, effect⟩ := myRead_effect valid fd c
      cases id effect with
      | byte ret valid' next noFailure buffered =>
          have order := effect.order noFailure
          have sound : ¬ (MyReadCall.mk (refill fd st) r.ret r.c).Failed := by
            rintro ⟨code, failed⟩
            exact noFailure code failed
          obtain ⟨vptr', put, room'⟩ := store_zero room r.c
          by_cases h : r.c = newline
          · obtain ⟨vptr'', put', -⟩ := store_zero room' 0
            refine ⟨⟨n, vptr'', r.fd⟩, r.state, [⟨refill fd st, r.ret, r.c⟩], ?_, valid', ?_, ?_,
              .cons order (.nil _), by simpa using sound⟩
            · rw [readlineV3Logged, call, ok_bind, if_pos ret, put, ok_bind, if_pos h, put']
              rfl
            · simp [next, behindLine, h]
            · simp [next, lineOf, h, deliveredIn, MyReadCall.delivered, ret]
          · have whole' : ¬ lineFails left (pending r.fd r.state) := by
              intro fails
              rw [next] at whole
              exact whole ⟨h, fails⟩
            obtain ⟨line, st', log, run, spec⟩ := ih (n + 1) r.c room' valid' whole'
            refine ⟨line, st', ⟨refill fd st, r.ret, r.c⟩ :: log, ?_, spec.valid, ?_, ?_,
              .cons order spec.sourced, ?_⟩
            · simp [readlineV3Logged, call, ret, put, h, run]
            · simp [next, behindLine, h, spec.behind]
            · have delivered := spec.delivered
              rw [deliveredIn] at delivered
              simp [next, lineOf, h, deliveredIn, MyReadCall.delivered, ret, delivered]
            · simpa [sound] using spec.noFailure
      | eof ret valid' empty empty' read next =>
          have order := effect.order (by simp [read])
          obtain ⟨vptr', put, -⟩ := store_zero room 0
          refine ⟨⟨n - 1, vptr', r.fd⟩, r.state, [⟨refill fd st, r.ret, r.c⟩], ?_, valid', ?_, ?_,
            .cons order (.nil _), by simp [MyReadCall.Failed, read]⟩
          · simp [readlineV3Logged, call, ret, put]
          · obtain eof | ⟨none, none'⟩ := next
            · simp [eof, behindLine]
            · simp [none, none', behindLine]
          · obtain eof | ⟨none, none'⟩ := next
            · simp [eof, lineOf, deliveredIn, MyReadCall.delivered, ret]
            · simp [none, lineOf, deliveredIn, MyReadCall.delivered, ret]
      | failure ret read next =>
          obtain ⟨items, next⟩ := next
          rw [next] at whole
          exact absurd trivial whole

/-- A call of `readline_v3` whose line is cut by a failure makes a call of `my_read` that
fails and returns 1. -/
theorem readlineV3Logged_failure {left : Nat} {n : Int} {c : UInt8} {vptr : Block} {st : ReadState}
    {fd : Script} (valid : st.Valid) (fails : lineFails left (pending fd st)) {line : Line}
    {st' : ReadState} {log : List MyReadCall}
    (run : readlineV3Logged left n c vptr st fd = .ok (line, st', log)) :
    ∃ call ∈ log, call.Failed ∧ call.ret = 1 := by
  induction left generalizing n c vptr st fd line st' log with
  | zero => exact fails.elim
  | succ left ih =>
      obtain ⟨r, call, effect⟩ := myRead_effect valid fd c
      rw [readlineV3Logged, call, ok_bind] at run
      cases effect with
      | byte ret valid' next noFailure buffered =>
          rw [next] at fails
          rw [if_pos ret] at run
          obtain ⟨vptr', put, run⟩ := bind_ok run
          rw [if_neg fails.1] at run
          obtain ⟨⟨line', st'', log'⟩, run', last⟩ := bind_ok run
          obtain ⟨failing, mem, failed⟩ := ih valid' fails.2 run'
          cases last
          exact ⟨failing, List.mem_cons_of_mem _ mem, failed⟩
      | eof ret valid' empty empty' read next =>
          obtain eof | ⟨none, none'⟩ := next
          · rw [eof] at fails
            exact fails.elim
          · rw [none] at fails
            exact fails.elim
      | failure ret read next =>
          -- `my_read` returns 1, and the call is the first of the log
          have failed : (MyReadCall.mk (refill fd st) r.ret r.c).Failed := ⟨_, read⟩
          rw [if_pos ret] at run
          obtain ⟨vptr', put, run⟩ := bind_ok run
          split at run
          · obtain ⟨vptr'', put', last⟩ := bind_ok run
            cases last
            exact ⟨_, List.mem_cons_self, failed, ret⟩
          · obtain ⟨⟨line', st'', log'⟩, run', last⟩ := bind_ok run
            cases last
            exact ⟨_, List.mem_cons_self, failed, ret⟩

end UnixProgramming.Unp
