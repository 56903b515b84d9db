import UnixProgramming.Library.BitSet
import UnixProgramming.Library.Fallible

/-!
# The signal sets of `process_relation.c`

A set is an `int`, and signal `signo` is its bit `signo - 1`. The functions reject a number that is
not from 1 to 31 before they shift, so no shift is by an invalid amount, and the top bit is never
shifted to.
-/

namespace UnixProgramming.ProcessRelation

open BitSet Fallible

def NSIG_M : Int := 32

def EINVAL : Int := 22

def SIGBAD_M (signo : Int) : Prop := signo ≤ 0 ∨ signo ≥ NSIG_M

instance (signo : Int) : Decidable (SIGBAD_M signo) := inferInstanceAs (Decidable (_ ∨ _))

/-- A shift that is not defined. -/
structure BadShift where
  amount : Int

/-- `1 << amount`, whose value must be an `int`. -/
def shiftOne (amount : Int) : Except BadShift (BitVec 32) :=
  if 0 ≤ amount ∧ amount < 31 then .ok (1#32 <<< amount.toNat) else .error ⟨amount⟩

/-- What a call has returned and left behind. -/
structure Result where
  value : Int
  set : BitVec 32
  errno : Int

def sigemptysetM (errno : Int) : Result := ⟨0, 0, errno⟩

/-- The check of the number, and then what is done with its bit. -/
def withBit (set : BitVec 32) (errno signo : Int) (use : BitVec 32 → Int × BitVec 32) :
    Except BadShift Result := do
  if SIGBAD_M signo then return ⟨-1, set, EINVAL⟩
  let bit ← shiftOne (signo - 1)
  return ⟨(use bit).1, (use bit).2, errno⟩

def sigaddsetM (set : BitVec 32) (errno signo : Int) : Except BadShift Result :=
  withBit set errno signo fun bit => (0, set ||| bit)

def sigdelsetM (set : BitVec 32) (errno signo : Int) : Except BadShift Result :=
  withBit set errno signo fun bit => (0, set &&& ~~~bit)

def sigismemberM (set : BitVec 32) (errno signo : Int) : Except BadShift Result :=
  withBit set errno signo fun bit => (if set &&& bit ≠ 0 then 1 else 0, set)

/-- One call, of `sigemptyset_m`, `sigaddset_m` or `sigdelset_m`. -/
def sigsetCall (before : Result) : Change Int → Except BadShift Result
  | .clear => .ok (sigemptysetM before.errno)
  | .add signo => sigaddsetM before.set before.errno signo
  | .remove signo => sigdelsetM before.set before.errno signo

theorem shiftOne_eq {signo : Int} (good : ¬ SIGBAD_M signo) :
    shiftOne (signo - 1) = .ok (1#32 <<< (signo - 1).toNat) := by
  rw [SIGBAD_M, NSIG_M] at good
  rw [shiftOne, if_pos (by omega)]

section WithBit

variable (set : BitVec 32) (errno : Int) {signo : Int} (use : BitVec 32 → Int × BitVec 32)

theorem withBit_bad (bad : SIGBAD_M signo) :
    withBit set errno signo use = .ok ⟨-1, set, EINVAL⟩ := if_pos bad

theorem withBit_good (good : ¬ SIGBAD_M signo) :
    withBit set errno signo use = .ok ⟨(use (1#32 <<< (signo - 1).toNat)).1,
      (use (1#32 <<< (signo - 1).toNat)).2, errno⟩ := by
  simp only [withBit, if_neg good, shiftOne_eq good, ok_bind, pure_eq_ok]

end WithBit

theorem bit_lt {signo : Int} (good : ¬ SIGBAD_M signo) : (signo - 1).toNat < 32 := by
  rw [SIGBAD_M, NSIG_M] at good
  omega

/-- Two signals have two bits. -/
theorem bit_inj {signo other : Int} (good : ¬ SIGBAD_M signo) (good' : ¬ SIGBAD_M other) :
    (signo - 1).toNat = (other - 1).toNat ↔ signo = other := by
  rw [SIGBAD_M, NSIG_M] at good good'
  omega

/-- The bits stand for the signals of a set of numbers. -/
def Represents (set : BitVec 32) (s : Set Int) : Prop :=
  ∀ signo, ¬ SIGBAD_M signo → (signo ∈ s ↔ (signo - 1).toNat ∈ members set)

/-- The numbers of an `int` are represented by it. -/
theorem represents_self (set : BitVec 32) :
    Represents set {signo | (signo - 1).toNat ∈ members set} := fun _ _ => Iff.rfl

/-- A number that is no signal is not represented, so it does not matter whether it is in the
set. -/
theorem Represents.of_bad {set : BitVec 32} {s t : Set Int} {other : Int}
    (rep : Represents set s) (bad : SIGBAD_M other)
    (same : ∀ signo, signo ≠ other → (signo ∈ t ↔ signo ∈ s)) : Represents set t := by
  intro signo good
  have apart : signo ≠ other := by
    rintro rfl
    exact good bad
  rw [same signo apart]
  exact rep signo good

/-- Each call makes its change of the set that the bits stand for. -/
theorem Represents.call {before : Result} {s : Set Int} (rep : Represents before.set s)
    (change : Change Int) :
    ∃ after, sigsetCall before change = .ok after ∧ Represents after.set (change.apply s) := by
  cases change with
  | clear =>
      refine ⟨_, rfl, fun signo good => ?_⟩
      show signo ∈ (∅ : Set Int) ↔ (signo - 1).toNat ∈ members 0#32
      rw [members_zero]
      exact Iff.rfl
  | add other =>
      obtain bad | valid := Decidable.em (SIGBAD_M other)
      · refine ⟨_, withBit_bad _ _ _ bad, rep.of_bad bad fun signo apart => ?_⟩
        rw [Change.apply, Set.mem_insert_iff, or_iff_right apart]
      · refine ⟨_, withBit_good _ _ _ valid, fun signo good => ?_⟩
        dsimp only
        rw [members_or_mask _ (bit_lt valid), Change.apply, Set.mem_insert_iff,
          Set.mem_insert_iff, rep signo good, bit_inj good valid]
  | remove other =>
      obtain bad | valid := Decidable.em (SIGBAD_M other)
      · refine ⟨_, withBit_bad _ _ _ bad, rep.of_bad bad fun signo apart => ?_⟩
        rw [Change.apply, Set.mem_sdiff, Set.mem_singleton_iff, and_iff_left apart]
      · refine ⟨_, withBit_good _ _ _ valid, fun signo good => ?_⟩
        dsimp only
        rw [members_and_not_mask _ (bit_lt valid), Change.apply, Set.mem_sdiff,
          Set.mem_sdiff, Set.mem_singleton_iff, Set.mem_singleton_iff, rep signo good,
          bit_inj good valid]

/-- Any calls, one after the other. -/
theorem Represents.calls {before : Result} {s : Set Int} (rep : Represents before.set s)
    (changes : List (Change Int)) :
    ∃ after, changes.foldlM sigsetCall before = .ok after ∧
      Represents after.set (changes.foldl Change.apply s) := by
  induction changes generalizing before s with
  | nil => exact ⟨before, rfl, rep⟩
  | cons change changes ih =>
      obtain ⟨middle, first, rep⟩ := rep.call change
      obtain ⟨after, rest, rep⟩ := ih rep
      refine ⟨after, ?_, rep⟩
      rw [List.foldlM_cons, first, ok_bind, rest]

/-- The test reads the bit. -/
theorem sigismemberM_eq (set : BitVec 32) (errno : Int) {signo : Int} (good : ¬ SIGBAD_M signo) :
    ∃ value, sigismemberM set errno signo = .ok ⟨value, set, errno⟩ ∧ (value = 0 ∨ value = 1) ∧
      (value = 1 ↔ (signo - 1).toNat ∈ members set) := by
  refine ⟨_, withBit_good _ _ _ good, ?_, ?_⟩
  · dsimp only
    split
    · exact .inr rfl
    · exact .inl rfl
  · rw [← and_mask_ne_zero_iff]
    dsimp only
    split
    · rename_i isSet
      exact iff_of_true rfl isSet
    · rename_i clear
      exact iff_of_false (by decide) clear

/-- The three functions refuse the number and change nothing. -/
def Refused (set : BitVec 32) (errno signo : Int) : Prop :=
  sigaddsetM set errno signo = .ok ⟨-1, set, EINVAL⟩ ∧
    sigdelsetM set errno signo = .ok ⟨-1, set, EINVAL⟩ ∧
    sigismemberM set errno signo = .ok ⟨-1, set, EINVAL⟩

/-- After any calls, whatever was in the `int` at first, a signal is in the set as its last change
has left it, and the set refuses all other numbers. -/
theorem sigset_refines (start : Result) (changes : List (Change Int)) :
    ∃ after, changes.foldlM sigsetCall start = .ok after ∧
      (∀ signo, 1 ≤ signo → signo ≤ 31 →
        ∃ value, sigismemberM after.set after.errno signo =
            .ok ⟨value, after.set, after.errno⟩ ∧ (value = 0 ∨ value = 1) ∧
          (value = 1 ↔ Change.Holds signo changes (start.set.getLsbD (signo - 1).toNat = true))) ∧
      ∀ set errno signo, (signo < 1 ∨ 31 < signo) → Refused set errno signo := by
  obtain ⟨after, run, rep⟩ := (represents_self start.set).calls changes
  refine ⟨after, run, fun signo lower upper => ?_, fun set errno signo outside => ?_⟩
  · have good : ¬ SIGBAD_M signo := by
      rw [SIGBAD_M, NSIG_M]
      omega
    obtain ⟨value, test, bit, isSet⟩ := sigismemberM_eq after.set after.errno good
    refine ⟨value, test, bit, ?_⟩
    rw [isSet, ← rep signo good, Change.mem_foldl_apply]
    exact Iff.rfl
  · have bad : SIGBAD_M signo := by
      rw [SIGBAD_M, NSIG_M]
      omega
    exact ⟨withBit_bad _ _ _ bad, withBit_bad _ _ _ bad, withBit_bad _ _ _ bad⟩

end UnixProgramming.ProcessRelation
