import Mathlib.Data.Finset.Basic
import UnixProgramming.Library.CMemory

/-!
# The signal state around `system_m1` of `process_relation.c`

`system_m1` ignores SIGINT and SIGQUIT and blocks SIGCHLD while its child runs, and at its end it
puts everything back. It has no way back from its three setup calls: when one of them fails, it
returns at once and leaves what the calls in front of it have changed.
-/

namespace UnixProgramming.ProcessRelation

open CMemory

inductive Handler
  | dfl
  | ign
  | function (address : Nat)
  deriving DecidableEq

structure Sigaction where
  saHandler : Handler
  saMask : Finset Nat
  saFlags : Int
  deriving DecidableEq

/-- The dispositions of the two signals and the signal mask of a process. -/
structure SignalState where
  sigint : Sigaction
  sigquit : Sigaction
  mask : Finset Nat
  deriving DecidableEq

def SIGCHLD : Nat := 17

/-- The action that `system_m1` installs for both signals. -/
def ignore : Sigaction := ⟨.ign, ∅, 0⟩

inductive WaitResult
  | exited (status : Int)
  | interrupted
  | failed
  deriving DecidableEq

/-- Which of the calls in front of the restoring ones succeed, and the results of `waitpid`. -/
structure Outcomes where
  sigint : Bool
  sigquit : Bool
  sigprocmask : Bool
  fork : Bool
  waits : List WaitResult

/-- The loop of the parent. Behind the end of the list it waits. -/
def waitLoop : List WaitResult → Option Int
  | [] => none
  | .exited status :: _ => some status
  | .interrupted :: waits => waitLoop waits
  | .failed :: _ => some (-1)

/-- The three restoring calls. -/
def SignalState.restore (_ : SignalState) (saveintr savequit : Sigaction)
    (savemask : Finset Nat) : SignalState :=
  ⟨saveintr, savequit, savemask⟩

/-- The signal state of the child at `execl`, and the value and the signal state at the return of
the calling process. -/
structure Run where
  execl : Option SignalState
  returned : Option (Int × SignalState)

/-- `system_m1` behind its setup. -/
def systemFork (o : Outcomes) (saveintr savequit : Sigaction) (savemask : Finset Nat)
    (s : SignalState) : Run :=
  if o.fork then
    ⟨some (s.restore saveintr savequit savemask),
      (waitLoop o.waits).map fun status => (status, s.restore saveintr savequit savemask)⟩
  else ⟨none, some (-1, s.restore saveintr savequit savemask)⟩

def systemM1 (cmdstring : Option Block) (o : Outcomes) (s : SignalState) : Run :=
  if cmdstring = none then ⟨none, some (1, s)⟩
  else
    let saveintr := s.sigint
    if !o.sigint then ⟨none, some (-1, s)⟩
    else
      let s := { s with sigint := ignore }
      let savequit := s.sigquit
      if !o.sigquit then ⟨none, some (-1, s)⟩
      else
        let s := { s with sigquit := ignore }
        let savemask := s.mask
        if !o.sigprocmask then ⟨none, some (-1, s)⟩
        else systemFork o saveintr savequit savemask { s with mask := s.mask ∪ {SIGCHLD} }

/-- Every return of the calling process and the child's `execl` find the state of before. -/
structure Restores (run : Run) (before : SignalState) : Prop where
  returned : ∀ value after, run.returned = some (value, after) → after = before
  execl : ∀ child, run.execl = some child → child = before

/-- A setup call that fails comes behind calls that have changed nothing: the signals were
already ignored in the way of `ignore`. -/
structure FailsUnchanged (o : Outcomes) (before : SignalState) : Prop where
  sigquit : o.sigquit = false → before.sigint = ignore
  sigprocmask : o.sigquit = true → o.sigprocmask = false →
    before.sigint = ignore ∧ before.sigquit = ignore

theorem restores_of_returned {value : Int} {after before : SignalState} :
    Restores ⟨none, some (value, after)⟩ before ↔ after = before := by
  constructor
  · intro h
    exact h.returned value after rfl
  · intro same
    refine ⟨fun value' after' returned => ?_, fun child execl => ?_⟩
    · cases returned
      exact same
    · cases execl

/-- Behind its setup `system_m1` restores everything on all its ways. -/
theorem systemFork_restores (o : Outcomes) (before s : SignalState) :
    Restores (systemFork o before.sigint before.sigquit before.mask s) before := by
  rw [systemFork]
  split
  · refine ⟨fun value after returned => ?_, fun child execl => ?_⟩
    · obtain ⟨status, -, same⟩ := Option.map_eq_some_iff.mp returned
      cases same
      rfl
    · cases execl
      rfl
  · exact restores_of_returned.mpr rfl

/-- The signal state is restored exactly where the command is NULL, the first setup call fails, or
a later one that fails finds nothing changed. -/
theorem systemM1_restores_iff (cmdstring : Option Block) (o : Outcomes) (before : SignalState) :
    Restores (systemM1 cmdstring o before) before ↔
      cmdstring = none ∨ o.sigint = false ∨ FailsUnchanged o before := by
  rw [systemM1]
  by_cases noCommand : cmdstring = none
  · rw [if_pos noCommand]
    exact iff_of_true (restores_of_returned.mpr rfl) (.inl noCommand)
  · rw [if_neg noCommand]
    obtain ⟨sigint, sigquit, sigprocmask, fork, waits⟩ := o
    cases sigint with
    | false => exact iff_of_true (restores_of_returned.mpr rfl) (.inr (.inl rfl))
    | true =>
        have condition : cmdstring = none ∨ true = false ∨
            FailsUnchanged ⟨true, sigquit, sigprocmask, fork, waits⟩ before ↔
              FailsUnchanged ⟨true, sigquit, sigprocmask, fork, waits⟩ before := by
          simp [noCommand]
        dsimp only
        rw [condition]
        cases sigquit with
        | false =>
            refine restores_of_returned.trans ⟨fun same => ⟨fun _ => ?_, nofun⟩, fun h => ?_⟩
            · exact (congrArg SignalState.sigint same).symm
            · rw [← h.sigquit rfl]
        | true =>
            cases sigprocmask with
            | false =>
                refine restores_of_returned.trans ⟨fun same => ⟨nofun, fun _ _ => ⟨?_, ?_⟩⟩, ?_⟩
                · exact (congrArg SignalState.sigint same).symm
                · exact (congrArg SignalState.sigquit same).symm
                · intro h
                  obtain ⟨intr, quit⟩ := h.sigprocmask rfl rfl
                  obtain ⟨sigint, sigquit, mask⟩ := before
                  cases intr
                  cases quit
                  rfl
            | true => exact iff_of_true (systemFork_restores _ before _) ⟨nofun, nofun⟩

/-- Default dispositions, and the second setup call fails: SIGINT stays ignored. -/
theorem systemM1_leaves_ignored :
    systemM1 (some (ascii "ed")) ⟨true, false, true, true, []⟩
        ⟨⟨.dfl, ∅, 0⟩, ⟨.dfl, ∅, 0⟩, ∅⟩ =
      ⟨none, some (-1, ⟨ignore, ⟨.dfl, ∅, 0⟩, ∅⟩)⟩ ∧
    ¬ Restores (systemM1 (some (ascii "ed")) ⟨true, false, true, true, []⟩
        ⟨⟨.dfl, ∅, 0⟩, ⟨.dfl, ∅, 0⟩, ∅⟩) ⟨⟨.dfl, ∅, 0⟩, ⟨.dfl, ∅, 0⟩, ∅⟩ := by
  refine ⟨rfl, fun restores => ?_⟩
  have same := restores.returned (-1) ⟨ignore, ⟨.dfl, ∅, 0⟩, ∅⟩ rfl
  have handlers : Handler.ign = .dfl := congrArg (fun s => s.sigint.saHandler) same
  cases handlers

end UnixProgramming.ProcessRelation
