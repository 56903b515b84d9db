import UnixProgramming.Unp.ReadLog
import UnixProgramming.Unp.ReadersAgree

/-!
# Failed reads under `readline_v3`

`my_read` does not return when its `read` fails: it goes on to deliver a byte of the
buffer that has not been read. So the errors of a script surface exactly in the sequences
of calls that never meet one.
-/

namespace UnixProgramming.Unp

open CMemory Descriptor Fallible

/-- The value of each call of `readline_v3`, with the calls of `my_read` in it. -/
def runLogged (fd : Script) (st : ReadState) :
    List Call → Except Fault (List (Int × List MyReadCall))
  | [] => .ok []
  | call :: calls => do
      let (line, st, log) ← readlineV3Logged (call.maxlen - 1) 1 0 call.vptr st fd
      let results ← runLogged line.fd st calls
      return (line.ret, log) :: results

/-- The values are those of `readline_v3`. -/
theorem map_runLogged (fd : Script) (st : ReadState) (calls : List Call) :
    (runLogged fd st calls).map (List.map Prod.fst) =
      (runV3 fd st calls).map (List.map Prod.fst) := by
  induction calls generalizing fd st with
  | nil => rfl
  | cons call calls ih =>
      rw [runLogged, runV3, readlineV3, ← map_readlineV3Logged]
      cases readlineV3Logged (call.maxlen - 1) 1 0 call.vptr st fd with
      | error f => rfl
      | ok result =>
          obtain ⟨line, st', log⟩ := result
          have logged : (do
              let results ← runLogged line.fd st' calls
              return (line.ret, log) :: results : Except Fault (List (Int × List MyReadCall))).map
                (List.map Prod.fst) =
              ((runLogged line.fd st' calls).map (List.map Prod.fst)).map (line.ret :: ·) := by
            cases runLogged line.fd st' calls <;> rfl
          have plain : (do
              let results ← runV3 line.fd st' calls
              return (line.ret, cString line.vptr) :: results :
                Except Fault (List (Int × Block))).map (List.map Prod.fst) =
              ((runV3 line.fd st' calls).map (List.map Prod.fst)).map (line.ret :: ·) := by
            cases runV3 line.fd st' calls <;> rfl
          exact logged.trans ((congrArg _ (ih line.fd st')).trans plain.symm)

/-- A failed `read` makes its `my_read` and the enclosing `readline_v3` return -1, and no
call of `my_read` delivers what has not been read. -/
structure Surfaces (lines : List (Int × List MyReadCall)) : Prop where
  returned : ∀ line ∈ lines, ∀ call ∈ line.2, call.Failed → call.ret = -1 ∧ line.1 = -1
  sourced : ∃ left, Sourced [] (lines.flatMap Prod.snd) left

/-- The calls return, and errors surface in them. -/
def ErrorsSurface (fd : Script) (calls : List Call) : Prop :=
  ∃ lines, runLogged fd .init calls = .ok lines ∧ Surfaces lines

/-- One of the lines that calls with these sizes ask for is cut by a failure. -/
def MeetsFailure : List Nat → List Item → Prop
  | [], _ => False
  | maxlen :: maxlens, items =>
      lineFails (maxlen - 1) items ∨ MeetsFailure maxlens (behindLine (maxlen - 1) items)

theorem runLogged_spec {fd : Script} {st : ReadState} {calls : List Call}
    (room : ∀ call ∈ calls, call.vptr ≠ []) (valid : st.Valid)
    (whole : ¬ MeetsFailure (calls.map Call.maxlen) (pending fd st)) :
    ∃ lines left, runLogged fd st calls = .ok lines ∧
      (∀ line ∈ lines, ∀ call ∈ line.2, ¬ call.Failed) ∧
      Sourced st.unread (lines.flatMap Prod.snd) left := by
  induction calls generalizing fd st with
  | nil => exact ⟨[], st.unread, rfl, by simp, .nil _⟩
  | cons call calls ih =>
      obtain ⟨here, later⟩ := List.forall_mem_cons.mp room
      obtain ⟨whole, whole'⟩ := not_or.mp whole
      obtain ⟨line, st', log, run, spec⟩ := readlineV3Logged_spec _ 1 0 here valid whole
      rw [← spec.behind] at whole'
      obtain ⟨lines, left, run', noFailure, sourced⟩ := ih later spec.valid whole'
      refine ⟨(line.ret, log) :: lines, left, by simp [runLogged, run, run'],
        List.forall_mem_cons.mpr ⟨spec.noFailure, noFailure⟩, ?_⟩
      rw [List.flatMap_cons]
      exact spec.sourced.trans sourced

theorem runLogged_failure {fd : Script} {st : ReadState} {calls : List Call}
    (room : ∀ call ∈ calls, call.vptr ≠ []) (valid : st.Valid)
    (meets : MeetsFailure (calls.map Call.maxlen) (pending fd st))
    {lines : List (Int × List MyReadCall)} (run : runLogged fd st calls = .ok lines) :
    ∃ line ∈ lines, ∃ call ∈ line.2, call.Failed ∧ call.ret = 1 := by
  induction calls generalizing fd st lines with
  | nil => exact meets.elim
  | cons call calls ih =>
      obtain ⟨here, later⟩ := List.forall_mem_cons.mp room
      obtain ⟨⟨line, st', log⟩, run', rest⟩ := bind_ok run
      obtain ⟨lines', run'', last⟩ := bind_ok rest
      cases last
      by_cases fails : lineFails (call.maxlen - 1) (pending fd st)
      · exact ⟨_, List.mem_cons_self, readlineV3Logged_failure valid fails run'⟩
      · obtain ⟨line₁, st₁, log₁, run₁, spec⟩ := readlineV3Logged_spec _ 1 0 here valid fails
        rw [run'] at run₁
        cases run₁
        have meets' := meets.resolve_left fails
        rw [← spec.behind] at meets'
        obtain ⟨line₂, mem, failing⟩ := ih later spec.valid meets' run''
        exact ⟨line₂, List.mem_cons_of_mem _ mem, failing⟩

/-- Errors surface exactly when no line that is asked for is cut by one. -/
theorem errors_surface_iff {fd : Script} {calls : List Call}
    (room : ∀ call ∈ calls, call.vptr ≠ []) :
    ErrorsSurface fd calls ↔ ¬ MeetsFailure (calls.map Call.maxlen) (itemsOf fd) := by
  have start : itemsOf fd = pending fd .init := (pending_of_readCnt_eq_zero rfl fd).symm
  rw [start]
  constructor
  · rintro ⟨lines, run, surfaces⟩ meets
    obtain ⟨line, mem, call, mem', failed, ret⟩ :=
      runLogged_failure room ReadState.valid_init meets run
    have returned := (surfaces.returned line mem call mem' failed).1
    omega
  · intro whole
    obtain ⟨lines, left, run, noFailure, sourced⟩ :=
      runLogged_spec room ReadState.valid_init whole
    exact ⟨lines, run,
      fun line mem call mem' failed => absurd failed (noFailure line mem call mem'), left, sourced⟩

/-- A line and an end of file in front of a failure that no call comes to. -/
theorem errors_surface_line :
    ErrorsSurface [.data [104, 105, 10], .data [], .fail (.other 5)]
      [⟨4, [0, 0, 0, 0]⟩, ⟨4, [0, 0, 0, 0]⟩] :=
  (errors_surface_iff (by decide)).mpr
    (by simp [MeetsFailure, itemsOf, lineFails, behindLine, newline])

/-- The connection is reset behind the byte `a`: the second call of `my_read` fails and
delivers that byte again, and `readline_v3` returns 2. -/
theorem reset_repeats :
    (∃ log, runLogged [.data [97], .fail (.other 104)] .init [⟨4, [0, 0, 0, 0]⟩] =
      .ok [(2, log)] ∧ deliveredIn log = [97, 97] ∧
        log.map MyReadCall.refill =
          [some (.ok [97]), some (.error (.other 104)), some (.ok [])]) ∧
    ¬ ErrorsSurface [.data [97], .fail (.other 104)] [⟨4, [0, 0, 0, 0]⟩] := by
  have run : ∃ log, runLogged [.data [97], .fail (.other 104)] .init [⟨4, [0, 0, 0, 0]⟩] =
      .ok [(2, log)] ∧ deliveredIn log = [97, 97] ∧
        log.map MyReadCall.refill =
          [some (.ok [97]), some (.error (.other 104)), some (.ok [])] := ⟨_, rfl, rfl, rfl⟩
  refine ⟨run, ?_⟩
  obtain ⟨log, run, -, refills⟩ := run
  rintro ⟨lines, run', surfaces⟩
  rw [run] at run'
  cases run'
  match log with
  | [_, call, _] =>
      have failed : call.Failed := by
        simp at refills
        exact ⟨104, refills.2.1⟩
      have returned := (surfaces.returned _ List.mem_cons_self call (by simp) failed).2
      simp at returned

end UnixProgramming.Unp
