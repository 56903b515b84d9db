import UnixProgramming.Library.Transition
import Mathlib.Data.List.Nodup

/-!
# `echo_tcp_server_v1.c`: the children and their `SIGCHLD` handler

The server forks a child for each connection, and `sig_child_handler` collects the
children that have ended. `SIGCHLD` is one flag: any number of exits before the handler
starts count once. The handler runs between two steps of `main`, which does nothing
meanwhile, and it is not started a second time before it has returned. Children end at
any time. The handler of `echo_udp_server_v2.c` is the same loop.
-/

namespace UnixProgramming.EchoTcp.Children

open Transition

inductive Phase
  | running
  | zombie
  | reaped
  deriving DecidableEq

inductive MainPc
  | accept
  | fork
  | close
  | exited
  deriving DecidableEq

inductive HandlerPc
  | idle
  | waitpid
  | done
  deriving DecidableEq

/-- The children in the order of their forks, and the calls of `waitpid` that have
collected one. -/
structure State where
  main : MainPc
  handler : HandlerPc
  sigchld : Bool
  children : List Phase
  reaps : List Nat

/-- How `Accept` returns. -/
inductive Accepted
  | connection
  | eintr
  | failed
  deriving DecidableEq

inductive Action
  | accept (r : Accepted)
  | fork
  | forkFails
  | close
  | exit (c : Nat)
  | startHandler
  | waitpid (c : Nat)
  | waitpidNone
  | returnHandler
  deriving DecidableEq

namespace State

def init : State := ⟨.accept, .idle, false, [], []⟩

/-- `main` is at `pc`, and the handler does not run. -/
def mainAt (s : State) (pc : MainPc) : Prop := s.main = pc ∧ s.handler = .idle

instance (s : State) (pc : MainPc) : Decidable (s.mainAt pc) :=
  inferInstanceAs (Decidable (s.main = pc ∧ s.handler = .idle))

def step (s : State) : Action → Option State
  | .accept r =>
      if s.mainAt .accept then
        match r with
        | .connection => some { s with main := .fork }
        | .eintr => some s
        | .failed => some { s with main := .exited }
      else none
  | .fork =>
      if s.mainAt .fork then some { s with main := .close, children := s.children ++ [.running] }
      else none
  | .forkFails => if s.mainAt .fork then some { s with main := .close } else none
  | .close => if s.mainAt .close then some { s with main := .accept } else none
  -- the children of a server that has ended are not its own any more
  | .exit c =>
      if s.children[c]? = some .running ∧ s.main ≠ .exited then
        some { s with children := s.children.set c .zombie, sigchld := true }
      else none
  | .startHandler =>
      if s.sigchld = true ∧ s.handler = .idle ∧ s.main ≠ .exited then
        some { s with sigchld := false, handler := .waitpid }
      else none
  | .waitpid c =>
      if s.handler = .waitpid ∧ s.children[c]? = some .zombie then
        some { s with children := s.children.set c .reaped, reaps := c :: s.reaps }
      else none
  | .waitpidNone =>
      if s.handler = .waitpid ∧ .zombie ∉ s.children then some { s with handler := .done }
      else none
  | .returnHandler =>
      if s.handler = .done then some { s with handler := .idle } else none

end State

def Step (s : State) (act : Action) (s' : State) : Prop := s.step act = some s'

/-- A zombie is announced by the flag, or the handler is still going to look for it. -/
structure Inv (s : State) : Prop where
  announced : .zombie ∈ s.children → s.sigchld = true ∨ s.handler = .waitpid
  collected : ∀ c, c ∈ s.reaps ↔ s.children[c]? = some .reaped
  once : s.reaps.Nodup

namespace Inv

variable {s s' : State} {act : Action}

theorem init : Inv .init where
  announced := by simp [State.init]
  collected := by simp [State.init]
  once := List.nodup_nil

/-- Steps of `main` between two forks keep the children. -/
theorem of_main (inv : Inv s) (pc : MainPc) : Inv { s with main := pc } :=
  ⟨inv.announced, inv.collected, inv.once⟩

/-- An exit of a child that the handler has not seen sets the flag. -/
theorem exit (inv : Inv s) {c : Nat} (running : s.children[c]? = some .running) :
    Inv { s with children := s.children.set c .zombie, sigchld := true } where
  announced _ := .inl rfl
  collected c' := by
    obtain ⟨inside, -⟩ := List.getElem?_eq_some_iff.mp running
    rw [inv.collected c']
    by_cases same : c' = c
    · subst same
      rw [running, List.getElem?_set_self inside]
      simp
    · simp [List.getElem?_set_ne (Ne.symm same)]
  once := inv.once

/-- A `waitpid` turns a zombie, which has not been collected before, into a reaped child. -/
theorem waitpid (inv : Inv s) {c : Nat} (handler : s.handler = .waitpid)
    (zombie : s.children[c]? = some .zombie) :
    Inv { s with children := s.children.set c .reaped, reaps := c :: s.reaps } where
  announced _ := .inr handler
  collected c' := by
    obtain ⟨inside, -⟩ := List.getElem?_eq_some_iff.mp zombie
    rw [List.mem_cons, inv.collected c']
    by_cases same : c' = c
    · subst same
      simp [inside]
    · simp [same, List.getElem?_set_ne (Ne.symm same)]
  once := by
    refine List.nodup_cons.mpr ⟨fun again => ?_, inv.once⟩
    rw [inv.collected c, zombie] at again
    cases again

theorem fork (inv : Inv s) :
    Inv { s with main := .close, children := s.children ++ [.running] } where
  announced zombie := inv.announced (by simpa using zombie)
  collected c := by
    rw [inv.collected c, List.getElem?_append]
    split
    · exact Iff.rfl
    · rename_i outside
      rw [List.getElem?_eq_none (by omega)]
      cases c - s.children.length <;> simp
  once := inv.once

theorem step (inv : Inv s) (hstep : Step s act s') : Inv s' := by
  cases act with
  | accept r =>
      simp only [Step, State.step, Option.ite_none_right_eq_some] at hstep
      obtain ⟨-, hstep⟩ := hstep
      cases r <;> cases hstep
      · exact inv.of_main .fork
      · exact inv
      · exact inv.of_main .exited
  | fork =>
      simp only [Step, State.step, Option.ite_none_right_eq_some] at hstep
      obtain ⟨-, hstep⟩ := hstep
      cases hstep
      exact inv.fork
  | forkFails =>
      simp only [Step, State.step, Option.ite_none_right_eq_some] at hstep
      obtain ⟨-, hstep⟩ := hstep
      cases hstep
      exact inv.of_main .close
  | close =>
      simp only [Step, State.step, Option.ite_none_right_eq_some] at hstep
      obtain ⟨-, hstep⟩ := hstep
      cases hstep
      exact inv.of_main .accept
  | exit c =>
      simp only [Step, State.step, Option.ite_none_right_eq_some] at hstep
      obtain ⟨⟨running, -⟩, hstep⟩ := hstep
      cases hstep
      exact inv.exit running
  | startHandler =>
      simp only [Step, State.step, Option.ite_none_right_eq_some] at hstep
      obtain ⟨-, hstep⟩ := hstep
      cases hstep
      exact ⟨fun _ => .inr rfl, inv.collected, inv.once⟩
  | waitpid c =>
      simp only [Step, State.step, Option.ite_none_right_eq_some] at hstep
      obtain ⟨⟨handler, zombie⟩, hstep⟩ := hstep
      cases hstep
      exact inv.waitpid handler zombie
  | waitpidNone =>
      simp only [Step, State.step, Option.ite_none_right_eq_some] at hstep
      obtain ⟨⟨-, none⟩, hstep⟩ := hstep
      cases hstep
      -- an exit behind this call sets the flag again
      exact ⟨fun zombie => absurd zombie none, inv.collected, inv.once⟩
  | returnHandler =>
      simp only [Step, State.step, Option.ite_none_right_eq_some] at hstep
      obtain ⟨done, hstep⟩ := hstep
      cases hstep
      refine ⟨fun zombie => ?_, inv.collected, inv.once⟩
      obtain flag | loop := inv.announced zombie
      · exact .inl flag
      · rw [done] at loop
        cases loop

end Inv

/-- Where no signal is pending and the handler does not run, every child that has ended has
been collected, and never twice. -/
theorem no_zombies {s : State} (h : Reachable Step .init s) :
    (s.sigchld = false → s.handler = .idle →
      ∀ (c : Nat) (p : Phase), s.children[c]? = some p → p ≠ .running → c ∈ s.reaps) ∧
    s.reaps.Nodup := by
  have inv : Inv s := h.invariant .init fun _ _ _ inv hstep => inv.step hstep
  refine ⟨fun clear idle c p child ended => ?_, inv.once⟩
  rw [inv.collected c, child]
  cases p with
  | running => exact absurd rfl ended
  | reaped => rfl
  | zombie =>
      obtain flag | loop := inv.announced (List.mem_of_getElem? child)
      · rw [clear] at flag
        cases flag
      · rw [idle] at loop
        cases loop

/-- Two exits share one signal, and a third child ends behind the last `waitpid`. -/
theorem no_zombies_late_exit :
    ∃ s, Reachable Step .init s ∧ s.sigchld = false ∧ s.handler = .idle ∧
      s.reaps = [1, 0, 2] ∧ (1 ∈ s.reaps ∧ s.reaps.Nodup) := by
  have run : ∃ s, Steps Step .init
      [.accept .connection, .fork, .close, .accept .connection, .fork, .close,
        .accept .connection, .fork, .exit 2, .exit 0, .startHandler, .waitpid 2, .waitpid 0,
        .waitpidNone, .exit 1, .returnHandler, .startHandler, .waitpid 1, .waitpidNone,
        .returnHandler] s ∧
      s.sigchld = false ∧ s.handler = .idle ∧ s.reaps = [1, 0, 2] ∧
      s.children[1]? = some .reaped :=
    ⟨_, Steps.of_foldlM_option rfl, rfl, rfl, rfl, rfl⟩
  obtain ⟨s, steps, clear, idle, reaps, child⟩ := run
  have reachable : Reachable Step .init s := ⟨_, steps⟩
  have result := no_zombies reachable
  exact ⟨s, reachable, clear, idle, reaps, result.1 clear idle 1 .reaped child (by simp), result.2⟩

end UnixProgramming.EchoTcp.Children
