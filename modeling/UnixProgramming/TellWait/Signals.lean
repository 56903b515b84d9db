import UnixProgramming.Library.Transition
import Mathlib.Logic.Function.Basic

/-!
# `process_relation.c`: tell and wait over two signals

Each process has its own copy of `sigflag`, of its mask and of its pending signals. A
signal that is pending already is not queued a second time. The handler runs between any
two instructions that the mask allows, and inside of `sigsuspend`, which returns behind it.
-/

namespace UnixProgramming.TellWait.Signals

open Transition

inductive Sig
  | sigusr1
  | sigusr2
  deriving DecidableEq

/-- A `sigset_t` of these two signals. -/
abbrev SigSet := Sig → Bool

def zeromask : SigSet := fun _ => false

def newmask : SigSet := fun _ => true

/-- The instruction of a wait that comes next. -/
inductive Pc
  | ready
  | test
  | sigsuspend
  | reset
  | setMask
  deriving DecidableEq

inductive Call
  | tell
  | wait
  deriving DecidableEq

/-- A process, with its last call, its tells and the waits that have returned. -/
structure Proc where
  sigflag : Nat
  mask : SigSet
  pending : SigSet
  pc : Pc
  last : Option Call
  tells : Nat
  waits : Nat

namespace Proc

/-- `TELL_WAIT` in a process whose mask was `oldmask`. -/
def tellWait (oldmask : SigSet) : Proc where
  sigflag := 0
  mask := fun sig => oldmask sig || newmask sig
  pending := fun _ => false
  pc := .ready
  last := none
  tells := 0
  waits := 0

def usrSignalHandler (p : Proc) : Proc := { p with sigflag := 1 }

/-- `kill` from the other process. -/
def kill (p : Proc) (sig : Sig) : Proc :=
  { p with pending := Function.update p.pending sig true }

/-- The signals blocked now: `sigsuspend` puts `zeromask` in place of the mask. -/
def blocked (p : Proc) : SigSet := if p.pc = .sigsuspend then zeromask else p.mask

/-- A pending signal that is not blocked is handled. -/
def deliver (p : Proc) (sig : Sig) : Option Proc :=
  if p.pending sig = true ∧ p.blocked sig = false then
    some { p.usrSignalHandler with
      pending := Function.update p.pending sig false
      pc := if p.pc = .sigsuspend then .test else p.pc }
  else none

def callWait (p : Proc) : Proc := { p with pc := .test, last := some .wait }

/-- The return of a wait, behind its `sigprocmask`. -/
def waitReturns (p : Proc) (oldmask : SigSet) : Proc :=
  { p with mask := oldmask, pc := .ready, waits := p.waits + 1 }

/-- The next instruction of `WAIT_PARENT`. -/
def waitParent (p : Proc) (oldmask : SigSet) : Option Proc :=
  match p.pc with
  | .test => some { p with pc := if p.sigflag = 0 then .sigsuspend else .setMask }
  | .setMask => some (p.waitReturns oldmask)
  | .ready | .sigsuspend | .reset => none

/-- The next instruction of `WAIT_CHILD`. -/
def waitChild (p : Proc) (oldmask : SigSet) : Option Proc :=
  match p.pc with
  | .test => some { p with pc := if p.sigflag = 0 then .sigsuspend else .reset }
  | .reset => some { p with sigflag := 0, pc := .setMask }
  | .setMask => some (p.waitReturns oldmask)
  | .ready | .sigsuspend => none

end Proc

structure State where
  parent : Proc
  child : Proc

inductive Action
  | tellChild
  | tellParent
  | callWaitChild
  | callWaitParent
  | runWaitChild
  | runWaitParent
  | deliverParent (sig : Sig)
  | deliverChild (sig : Sig)
  deriving DecidableEq

namespace State

def tellWait (oldmask : SigSet) : State := ⟨.tellWait oldmask, .tellWait oldmask⟩

def told (p : Proc) : Proc := { p with last := some .tell, tells := p.tells + 1 }

/-- One call, instruction or signal of either process. -/
def step (oldmask : SigSet) (s : State) : Action → Option State
  | .tellChild =>
      if s.parent.pc = .ready then some ⟨told s.parent, s.child.kill .sigusr1⟩ else none
  | .tellParent =>
      if s.child.pc = .ready then some ⟨s.parent.kill .sigusr2, told s.child⟩ else none
  | .callWaitChild => if s.parent.pc = .ready then some ⟨s.parent.callWait, s.child⟩ else none
  | .callWaitParent => if s.child.pc = .ready then some ⟨s.parent, s.child.callWait⟩ else none
  | .runWaitChild => (s.parent.waitChild oldmask).map fun p => ⟨p, s.child⟩
  | .runWaitParent => (s.child.waitParent oldmask).map fun p => ⟨s.parent, p⟩
  | .deliverParent sig => (s.parent.deliver sig).map fun p => ⟨p, s.child⟩
  | .deliverChild sig => (s.child.deliver sig).map fun p => ⟨s.parent, p⟩

end State

def Step (oldmask : SigSet) (s : State) (act : Action) (s' : State) : Prop :=
  s.step oldmask act = some s'

/-- The calls of each side alternate, and a tell is made only when the other side has waited
for all tells before. -/
def Alternating (s : State) : Action → Prop
  | .tellChild => s.parent.last ≠ some .tell ∧ s.parent.tells ≤ s.child.waits
  | .tellParent => s.child.last ≠ some .tell ∧ s.child.tells ≤ s.parent.waits
  | .callWaitChild => s.parent.last ≠ some .wait
  | .callWaitParent => s.child.last ≠ some .wait
  | _ => True

instance (s : State) : DecidablePred (Alternating s)
  | .tellChild =>
      inferInstanceAs (Decidable (s.parent.last ≠ some .tell ∧ s.parent.tells ≤ s.child.waits))
  | .tellParent =>
      inferInstanceAs (Decidable (s.child.last ≠ some .tell ∧ s.child.tells ≤ s.parent.waits))
  | .callWaitChild => inferInstanceAs (Decidable (s.parent.last ≠ some .wait))
  | .callWaitParent => inferInstanceAs (Decidable (s.child.last ≠ some .wait))
  | .runWaitChild | .runWaitParent | .deliverParent _ | .deliverChild _ =>
      inferInstanceAs (Decidable True)

/-- A call of `WAIT_PARENT` is the first one, or the tell that it waits for has been made. -/
def FirstOrTold (s : State) : Action → Prop
  | .callWaitParent => s.child.waits = 0 ∨ s.child.waits < s.parent.tells
  | _ => True

instance (s : State) : DecidablePred (FirstOrTold s)
  | .callWaitParent =>
      inferInstanceAs (Decidable (s.child.waits = 0 ∨ s.child.waits < s.parent.tells))
  | .tellChild | .tellParent | .callWaitChild | .runWaitChild | .runWaitParent
  | .deliverParent _ | .deliverChild _ => inferInstanceAs (Decidable True)

/-- No wait has returned ahead of its tell. -/
structure Ordered (s : State) : Prop where
  waitParent : s.child.waits ≤ s.parent.tells
  waitChild : s.parent.waits ≤ s.child.tells

theorem tells_of_deliver {p p' : Proc} {sig : Sig} (h : p.deliver sig = some p') :
    p'.tells = p.tells := by
  rw [Proc.deliver, Option.ite_none_right_eq_some] at h
  obtain ⟨-, h⟩ := h
  cases h
  rfl

/-- 1 between the reset of the flag and the return of the wait. -/
def Pc.cleared : Pc → Nat
  | .setMask => 1
  | .ready | .test | .sigsuspend | .reset => 0

/-- The tells that a process has received and that no wait has consumed. -/
def Proc.received (p : Proc) : Nat :=
  (p.sigflag != 0).toNat + (p.pending .sigusr1).toNat + (p.pending .sigusr2).toNat +
    p.pc.cleared

/-- The parent has met no more signals than the `n` tells of the child: it clears the flag
in each wait. -/
structure ParentInv (p : Proc) (n : Nat) : Prop where
  counted : p.received + p.waits ≤ n
  flagged : p.pc = .reset → p.sigflag ≠ 0

namespace ParentInv

variable {p p' : Proc} {n : Nat} {oldmask : SigSet} {sig : Sig}

theorem kill (inv : ParentInv p n) : ParentInv (p.kill sig) (n + 1) := by
  refine ⟨?_, inv.flagged⟩
  have counted := inv.counted
  cases sig <;> simp [Proc.received, Proc.kill] at counted ⊢ <;> omega

theorem deliver (inv : ParentInv p n) (h : p.deliver sig = some p') : ParentInv p' n := by
  rw [Proc.deliver] at h
  split at h
  · rename_i enabled
    cases h
    have counted := inv.counted
    have pending := enabled.1
    refine ⟨?_, by simp [Proc.usrSignalHandler]⟩
    by_cases suspended : p.pc = .sigsuspend
    · simp only [Proc.received, suspended, Pc.cleared] at counted
      cases sig <;> simp [Proc.received, Proc.usrSignalHandler, pending, suspended, Pc.cleared]
        at counted ⊢ <;> omega
    · cases sig <;> simp [Proc.received, Proc.usrSignalHandler, pending, suspended]
        at counted ⊢ <;> omega
  · cases h

theorem run (inv : ParentInv p n) (h : p.waitChild oldmask = some p') : ParentInv p' n := by
  have counted := inv.counted
  unfold Proc.waitChild at h
  cases pc : p.pc with
  | ready | sigsuspend => simp [pc] at h
  | test =>
      simp only [pc] at h
      cases h
      by_cases clear : p.sigflag = 0
      · exact ⟨by simpa [Proc.received, Pc.cleared, pc, clear] using counted, by simp [clear]⟩
      · exact ⟨by simpa [Proc.received, Pc.cleared, pc, clear] using counted, by simp [clear]⟩
  | reset =>
      simp only [pc] at h
      cases h
      have flagged : (p.sigflag != 0) = true := by simpa using inv.flagged pc
      refine ⟨?_, by simp⟩
      simp [Proc.received, Pc.cleared, pc, flagged] at counted ⊢
      omega
  | setMask =>
      simp only [pc] at h
      cases h
      refine ⟨?_, by simp [Proc.waitReturns]⟩
      simp [Proc.received, Pc.cleared, Proc.waitReturns, pc] at counted ⊢
      omega

end ParentInv

/-- The child keeps its flag. After a signal each of its waits passes at once, so it has to
be told before it calls. -/
structure ChildInv (p : Proc) (n : Nat) : Prop where
  heard : p.sigflag ≠ 0 ∨ (∃ sig, p.pending sig = true) → 1 ≤ n
  entered : p.pc = .test ∨ p.pc = .sigsuspend → p.waits = 0 ∨ p.waits < n
  passed : p.pc = .setMask → p.waits < n
  returned : p.waits ≤ n
  kept : p.pc = .setMask ∨ p.waits ≠ 0 → p.sigflag ≠ 0

namespace ChildInv

variable {p p' : Proc} {n : Nat} {oldmask : SigSet} {sig : Sig}

theorem kill (inv : ChildInv p n) : ChildInv (p.kill sig) (n + 1) where
  heard _ := by omega
  entered h := by
    have := inv.entered h
    simp only [Proc.kill]
    omega
  passed h := by
    have := inv.passed h
    simp only [Proc.kill]
    omega
  returned := by
    have := inv.returned
    simp only [Proc.kill]
    omega
  kept := inv.kept

theorem deliver (inv : ChildInv p n) (h : p.deliver sig = some p') : ChildInv p' n := by
  rw [Proc.deliver] at h
  split at h
  · rename_i enabled
    cases h
    have told : 1 ≤ n := inv.heard (.inr ⟨sig, enabled.1⟩)
    refine ⟨fun _ => told, fun entered => ?_, fun passed => ?_, inv.returned, ?_⟩
    · by_cases suspended : p.pc = .sigsuspend
      · exact inv.entered (.inr suspended)
      · exact inv.entered (by simpa [suspended] using entered)
    · by_cases suspended : p.pc = .sigsuspend
      · simp [suspended] at passed
      · exact inv.passed (by simpa [suspended] using passed)
    · simp [Proc.usrSignalHandler]
  · cases h

theorem run (inv : ChildInv p n) (h : p.waitParent oldmask = some p') : ChildInv p' n := by
  unfold Proc.waitParent at h
  cases pc : p.pc with
  | ready | sigsuspend | reset => simp [pc] at h
  | test =>
      simp only [pc] at h
      cases h
      have entered := inv.entered (.inl pc)
      by_cases clear : p.sigflag = 0
      · rw [if_pos clear]
        exact ⟨inv.heard, fun _ => entered, by simp, inv.returned, by simpa [pc] using inv.kept⟩
      · rw [if_neg clear]
        have told := inv.heard (.inl clear)
        refine ⟨inv.heard, by simp, fun _ => ?_, inv.returned, fun _ => clear⟩
        show p.waits < n
        omega
  | setMask =>
      simp only [pc] at h
      cases h
      have flagged := inv.kept (.inl pc)
      have told := inv.passed pc
      exact ⟨inv.heard, by simp [Proc.waitReturns], by simp [Proc.waitReturns], told,
        fun _ => flagged⟩

end ChildInv

/-- The two directions are independent of each other. -/
structure Inv (s : State) : Prop where
  parent : ParentInv s.parent s.child.tells
  child : ChildInv s.child s.parent.tells

namespace Inv

variable {s s' : State} {act : Action} {oldmask : SigSet}

theorem tellWait (oldmask : SigSet) : Inv (.tellWait oldmask) where
  parent := ⟨by simp [State.tellWait, Proc.tellWait, Proc.received, Pc.cleared],
    by simp [State.tellWait, Proc.tellWait]⟩
  child := by
    constructor <;> simp [State.tellWait, Proc.tellWait]

/-- What the process of a call does not change of the invariant is carried over field by
field: a call only sets `pc`, `last` and the number of tells. -/
theorem step (inv : Inv s) (told : FirstOrTold s act) (hstep : Step oldmask s act s') :
    Inv s' := by
  obtain ⟨parent, child⟩ := inv
  cases act with
  | tellChild =>
      simp only [Step, State.step, Option.ite_none_right_eq_some] at hstep
      obtain ⟨ready, hstep⟩ := hstep
      cases hstep
      exact ⟨⟨parent.counted, parent.flagged⟩, child.kill⟩
  | tellParent =>
      simp only [Step, State.step, Option.ite_none_right_eq_some] at hstep
      obtain ⟨ready, hstep⟩ := hstep
      cases hstep
      exact ⟨parent.kill,
        ⟨child.heard, child.entered, child.passed, child.returned, child.kept⟩⟩
  | callWaitChild =>
      simp only [Step, State.step, Option.ite_none_right_eq_some] at hstep
      obtain ⟨ready, hstep⟩ := hstep
      cases hstep
      have counted := parent.counted
      refine ⟨⟨?_, by simp [Proc.callWait]⟩, child⟩
      simpa [Proc.received, Pc.cleared, Proc.callWait, ready] using counted
  | callWaitParent =>
      simp only [Step, State.step, Option.ite_none_right_eq_some] at hstep
      obtain ⟨ready, hstep⟩ := hstep
      cases hstep
      refine ⟨parent, child.heard, fun _ => told, by simp [Proc.callWait], child.returned, ?_⟩
      simpa [Proc.callWait, ready] using child.kept
  | runWaitChild =>
      obtain ⟨p, run, hp⟩ := Option.map_eq_some_iff.mp hstep
      cases hp
      have same : p.tells = s.parent.tells := by
        unfold Proc.waitChild at run
        split at run <;> cases run <;> rfl
      exact ⟨parent.run run, same ▸ child⟩
  | runWaitParent =>
      obtain ⟨p, run, hp⟩ := Option.map_eq_some_iff.mp hstep
      cases hp
      have same : p.tells = s.child.tells := by
        unfold Proc.waitParent at run
        split at run <;> cases run <;> rfl
      exact ⟨same ▸ parent, child.run run⟩
  | deliverParent sig =>
      obtain ⟨p, run, hp⟩ := Option.map_eq_some_iff.mp hstep
      cases hp
      exact ⟨parent.deliver run, (tells_of_deliver run) ▸ child⟩
  | deliverChild sig =>
      obtain ⟨p, run, hp⟩ := Option.map_eq_some_iff.mp hstep
      cases hp
      exact ⟨(tells_of_deliver run) ▸ parent, child.deliver run⟩

/-- Only the calls of `WAIT_PARENT` need the condition. -/
theorem steps {as : List Action} (inv : Inv s) (run : Steps (Step oldmask) s as s')
    (noCall : ∀ act ∈ as, act ≠ .callWaitParent) : Inv s' := by
  induction run with
  | nil => exact inv
  | @cons s _ _ act as first _ ih =>
      have told : FirstOrTold s act := by
        have other := noCall act List.mem_cons_self
        cases act <;> trivial
      exact ih (inv.step told first) fun a mem => noCall a (List.mem_cons_of_mem act mem)

theorem ordered (inv : Inv s) : Ordered s where
  waitParent := inv.child.returned
  waitChild := Nat.le_of_add_left_le inv.parent.counted

/-- With the flag still set the child runs through the whole wait on its own. -/
theorem waitParent_passes (oldmask : SigSet) (inv : Inv s) (ready : s.child.pc = .ready)
    (alternates : Alternating s .callWaitParent) (again : s.child.waits ≠ 0) :
    ∃ t, Steps (Guarded Alternating (Step oldmask)) s
        [.callWaitParent, .runWaitParent, .runWaitParent] t ∧
      t.child.waits = s.child.waits + 1 ∧ t.parent.tells = s.parent.tells := by
  have flagged := inv.child.kept (.inr again)
  let passed : Proc := { s.child.callWait with pc := .setMask }
  have called : Step oldmask s .callWaitParent ⟨s.parent, s.child.callWait⟩ := by
    simp [Step, State.step, ready]
  have tested : Step oldmask ⟨s.parent, s.child.callWait⟩ .runWaitParent ⟨s.parent, passed⟩ := by
    simp [Step, State.step, Proc.waitParent, Proc.callWait, flagged, passed]
  have returned : Step oldmask ⟨s.parent, passed⟩ .runWaitParent
      ⟨s.parent, passed.waitReturns oldmask⟩ := by
    simp [Step, State.step, Proc.waitParent, passed]
  exact ⟨_, .cons ⟨alternates, called⟩ (.cons ⟨trivial, tested⟩ (.single ⟨trivial, returned⟩)),
    rfl, rfl⟩

end Inv

/-- The steps whose calls alternate and whose calls of `WAIT_PARENT` meet the condition. -/
def OrderedStep (oldmask : SigSet) : State → Action → State → Prop :=
  Guarded (fun s act => Alternating s act ∧ FirstOrTold s act) (Step oldmask)

/-- The waits follow their tells in every run whose calls of `WAIT_PARENT` are the first or
come behind the tell. In such a run the condition is exact for each further call: it holds
if and only if that call cannot return ahead of its tell. -/
theorem signals_ordered {oldmask : SigSet} {s : State}
    (h : Reachable (OrderedStep oldmask) (.tellWait oldmask) s) :
    Ordered s ∧
      (s.child.pc = .ready → Alternating s .callWaitParent →
        (FirstOrTold s .callWaitParent ↔
          ∀ as t, (∀ act ∈ as, act ≠ .callWaitParent) →
            Steps (Guarded Alternating (Step oldmask)) s (.callWaitParent :: as) t →
            Ordered t)) := by
  have inv : Inv s := h.invariant (.tellWait oldmask)
    fun _ _ _ inv hstep => inv.step hstep.1.2 hstep.2
  refine ⟨inv.ordered, fun ready alternates => ⟨fun told as t noCall run => ?_, fun safe => ?_⟩⟩
  · cases run with
    | cons first rest =>
        have inv' := inv.step told first.2
        exact (inv'.steps (rest.mono fun _ _ _ step => step.2) noCall).ordered
  · by_contra untold
    obtain ⟨again, ahead⟩ := not_or.mp untold
    obtain ⟨t, run, waits, tells⟩ := inv.waitParent_passes oldmask ready alternates again
    have ordered := (safe _ t (by simp) run).waitParent
    omega

/-- One round in each direction. -/
theorem signals_ordered_round :
    ∃ s, Reachable (OrderedStep zeromask) (.tellWait zeromask) s ∧ s.child.waits = 1 ∧
      s.parent.waits = 1 ∧ Ordered s := by
  have run : ∃ s, Steps (OrderedStep zeromask) (.tellWait zeromask)
      [.callWaitParent, .runWaitParent, .tellChild, .deliverChild .sigusr1, .runWaitParent,
        .runWaitParent, .tellParent, .callWaitChild, .runWaitChild, .deliverParent .sigusr2,
        .runWaitChild, .runWaitChild, .runWaitChild] s ∧
      s.child.waits = 1 ∧ s.parent.waits = 1 :=
    ⟨_, Steps.of_foldlM_guarded rfl, rfl, rfl⟩
  obtain ⟨s, steps, child, parent⟩ := run
  exact ⟨s, ⟨_, steps⟩, child, parent, (signals_ordered ⟨_, steps⟩).1⟩

/-- `WAIT_PARENT` leaves `sigflag` set: the child's second call of it returns although the
parent has told only once. -/
theorem waitParent_unwaited :
    ∃ s, Reachable (Guarded Alternating (Step zeromask)) (.tellWait zeromask) s ∧
      s.child.waits = 2 ∧ s.parent.tells = 1 ∧ ¬ Ordered s := by
  have run : ∃ s, Steps (Guarded Alternating (Step zeromask)) (.tellWait zeromask)
      [.tellChild, .callWaitParent, .runWaitParent, .deliverChild .sigusr1, .runWaitParent,
        .runWaitParent, .tellParent, .callWaitParent, .runWaitParent, .runWaitParent] s ∧
      s.child.waits = 2 ∧ s.parent.tells = 1 :=
    ⟨_, Steps.of_foldlM_guarded rfl, rfl, rfl⟩
  obtain ⟨s, steps, waits, tells⟩ := run
  refine ⟨s, ⟨_, steps⟩, waits, tells, fun ordered => ?_⟩
  have := ordered.waitParent
  omega

end UnixProgramming.TellWait.Signals
