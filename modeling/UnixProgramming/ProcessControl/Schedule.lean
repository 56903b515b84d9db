import Mathlib.Data.BitVec
import Mathlib.Data.Prod.Lex
import Mathlib.Tactic.Common

/-!
# The clock of `process_schedule_test`

The test counts until `checktime` finds that five seconds are over. `checktime` compares the
seconds and the microseconds each for themselves, so a sample of a later second with a smaller
number of microseconds is not taken as late. The samples of the clock are given for all rounds, and
a run that has not come to its end within `fuel` rounds has no value.
-/

namespace UnixProgramming.ProcessControl

structure Timeval where
  tvSec : Int
  tvUsec : Int
  deriving DecidableEq

namespace Timeval

def Normalised (t : Timeval) : Prop := 0 ≤ t.tvUsec ∧ t.tvUsec < 1000000

/-- Seconds first. -/
instance : LE Timeval := ⟨fun a b => toLex (a.tvSec, a.tvUsec) ≤ toLex (b.tvSec, b.tvUsec)⟩

theorem le_def {a b : Timeval} :
    a ≤ b ↔ a.tvSec < b.tvSec ∨ a.tvSec = b.tvSec ∧ a.tvUsec ≤ b.tvUsec :=
  Prod.Lex.toLex_le_toLex

end Timeval

/-- The end of a run: `exit(0)` in `checktime` with the count that it prints, in the round with
that number, or `err_quit` for a count that is zero again. -/
inductive Ending
  | checktime (round : Nat) (count : BitVec 64)
  | counterWrap
  deriving DecidableEq

/-- The condition of `checktime`. -/
def late (tv deadline : Timeval) : Prop :=
  deadline.tvSec ≤ tv.tvSec ∧ deadline.tvUsec ≤ tv.tvUsec

instance (tv deadline : Timeval) : Decidable (late tv deadline) :=
  inferInstanceAs (Decidable (_ ∧ _))

/-- The loop in the round `i`, with the global `count`. -/
def scheduleLoop (deadline : Timeval) (samples : Nat → Timeval) (i : Nat) (count : BitVec 64) :
    Nat → Option Ending
  | 0 => none
  | fuel + 1 =>
      let count := count + 1
      if count = 0 then some .counterWrap
      else if late (samples i) deadline then some (.checktime i count)
      else scheduleLoop deadline samples (i + 1) count fuel

/-- `end` is five seconds behind the start. -/
def deadlineOf (start : Timeval) : Timeval := ⟨start.tvSec + 5, start.tvUsec⟩

def processScheduleTest (start : Timeval) (samples : Nat → Timeval) (fuel : Nat) :
    Option Ending :=
  scheduleLoop (deadlineOf start) samples 0 0 fuel

/-- The first sample that is not earlier than the deadline. -/
def FirstNotEarlier (deadline : Timeval) (samples : Nat → Timeval) (k : Nat) : Prop :=
  deadline ≤ samples k ∧ ∀ j < k, ¬ deadline ≤ samples j

/-- Among the rounds before the count wraps, the test ends in the one with the first sample that
is not earlier than the deadline, and in no other. -/
def StopsOnTime (start : Timeval) (samples : Nat → Timeval) : Prop :=
  ∀ k, k + 1 < 2 ^ 64 →
    ((∃ fuel count, processScheduleTest start samples fuel = some (.checktime k count)) ↔
      FirstNotEarlier (deadlineOf start) samples k)

variable {start deadline : Timeval} {samples : Nat → Timeval}

/-- A sample that is late in both parts is not earlier. -/
theorem le_of_late {tv : Timeval} (h : late tv deadline) : deadline ≤ tv := by
  obtain ⟨sec, usec⟩ := h
  obtain less | same := lt_or_eq_of_le sec
  · exact Timeval.le_def.mpr (.inl less)
  · exact Timeval.le_def.mpr (.inr ⟨same, usec⟩)

theorem late_iff {tv : Timeval} :
    late tv deadline ↔ deadline ≤ tv ∧ deadline.tvUsec ≤ tv.tvUsec := by
  constructor
  · intro h
    exact ⟨le_of_late h, h.2⟩
  · rintro ⟨le, usec⟩
    refine ⟨?_, usec⟩
    obtain less | ⟨same, -⟩ := Timeval.le_def.mp le
    · exact less.le
    · exact same.le

/-- A run that ends in `checktime` has come to a late sample through rounds without one. -/
theorem late_of_scheduleLoop {i k fuel : Nat} {count count' : BitVec 64}
    (run : scheduleLoop deadline samples i count fuel = some (.checktime k count')) :
    i ≤ k ∧ late (samples k) deadline ∧ ∀ j, i ≤ j → j < k → ¬ late (samples j) deadline := by
  induction fuel generalizing i count with
  | zero => cases run
  | succ fuel ih =>
      rw [scheduleLoop] at run
      split at run
      · cases run
      · split at run
        · rename_i here
          cases run
          exact ⟨le_rfl, here, fun j low high => absurd low (not_le.mpr high)⟩
        · rename_i notHere
          obtain ⟨low, last, others⟩ := ih run
          refine ⟨by omega, last, fun j low' high => ?_⟩
          obtain rfl | later := eq_or_lt_of_le low'
          · exact notHere
          · exact others j later high

theorem count_succ (i : Nat) : BitVec.ofNat 64 i + 1 = BitVec.ofNat 64 (i + 1) :=
  (BitVec.ofNat_add i 1).symm

theorem count_ne_zero {i : Nat} (small : i + 1 < 2 ^ 64) : BitVec.ofNat 64 (i + 1) ≠ 0 := by
  intro wrapped
  have value := congrArg BitVec.toNat wrapped
  rw [BitVec.toNat_ofNat, Nat.mod_eq_of_lt small] at value
  cases value

/-- Before the count wraps, the run goes on to the first late sample. -/
theorem scheduleLoop_of_late {k n i : Nat} (distance : k = i + n) (small : k + 1 < 2 ^ 64)
    (last : late (samples k) deadline)
    (others : ∀ j, i ≤ j → j < k → ¬ late (samples j) deadline) :
    scheduleLoop deadline samples i (BitVec.ofNat 64 i) (n + 1) =
      some (.checktime k (BitVec.ofNat 64 (k + 1))) := by
  induction n generalizing i with
  | zero =>
      obtain rfl : k = i := distance
      rw [scheduleLoop, count_succ, if_neg (count_ne_zero small), if_pos last]
  | succ n ih =>
      rw [scheduleLoop, count_succ, if_neg (count_ne_zero (by omega)),
        if_neg (others i le_rfl (by omega))]
      exact ih (by omega) fun j low high => others j (by omega) high

/-- The test ends in the round with the first late sample. -/
theorem processScheduleTest_iff {k : Nat} (small : k + 1 < 2 ^ 64) :
    (∃ fuel count, processScheduleTest start samples fuel = some (.checktime k count)) ↔
      late (samples k) (deadlineOf start) ∧ ∀ j < k, ¬ late (samples j) (deadlineOf start) := by
  constructor
  · rintro ⟨fuel, count, run⟩
    obtain ⟨-, last, others⟩ := late_of_scheduleLoop run
    exact ⟨last, fun j less => others j (Nat.zero_le j) less⟩
  · rintro ⟨last, others⟩
    exact ⟨k + 1, _, scheduleLoop_of_late (Nat.zero_add k).symm small last fun j _ => others j⟩

/-- The test stops on time exactly where the first sample that is not earlier than the deadline
has at least its microseconds. -/
theorem stopsOnTime_iff (start : Timeval) (samples : Nat → Timeval) :
    StopsOnTime start samples ↔
      ∀ k, k + 1 < 2 ^ 64 → FirstNotEarlier (deadlineOf start) samples k →
        (deadlineOf start).tvUsec ≤ (samples k).tvUsec := by
  constructor
  · intro onTime k small first
    obtain ⟨last, -⟩ := (processScheduleTest_iff small).mp ((onTime k small).mpr first)
    exact last.2
  · intro enough k small
    rw [processScheduleTest_iff small]
    constructor
    · rintro ⟨last, others⟩
      refine ⟨le_of_late last, ?_⟩
      -- the first sample that is not earlier would have been late as well
      by_contra earlier
      push Not at earlier
      have some : ∃ j, j < k ∧ deadlineOf start ≤ samples j := earlier
      classical
      obtain ⟨less, notEarlier⟩ := Nat.find_spec some
      have first : FirstNotEarlier (deadlineOf start) samples (Nat.find some) := by
        refine ⟨notEarlier, fun j before le => ?_⟩
        exact Nat.find_min some before ⟨by omega, le⟩
      exact others _ less (late_iff.mpr ⟨notEarlier, enough _ (by omega) first⟩)
    · rintro ⟨notEarlier, others⟩
      refine ⟨late_iff.mpr ⟨notEarlier, enough k small ⟨notEarlier, others⟩⟩, fun j less h => ?_⟩
      exact others j less (le_of_late h)

/-- A clock that has come to a later second and stands there, with fewer microseconds. -/
theorem schedule_never_stops :
    Timeval.Normalised ⟨0, 900000⟩ ∧ Timeval.Normalised ⟨6, 100000⟩ ∧
      FirstNotEarlier (deadlineOf ⟨0, 900000⟩) (fun _ => ⟨6, 100000⟩) 0 ∧
      (∀ k count fuel, processScheduleTest ⟨0, 900000⟩ (fun _ => ⟨6, 100000⟩) fuel ≠
        some (.checktime k count)) ∧
      ¬ StopsOnTime ⟨0, 900000⟩ fun _ => ⟨6, 100000⟩ := by
  have first : FirstNotEarlier (deadlineOf ⟨0, 900000⟩) (fun _ => ⟨6, 100000⟩) 0 :=
    ⟨Timeval.le_def.mpr (.inl (by decide)), by simp⟩
  have never : ∀ k count fuel, processScheduleTest ⟨0, 900000⟩ (fun _ => ⟨6, 100000⟩) fuel ≠
      some (.checktime k count) := by
    intro k count fuel run
    obtain ⟨-, last, -⟩ := late_of_scheduleLoop run
    exact absurd last (by decide)
  refine ⟨⟨by decide, by decide⟩, ⟨by decide, by decide⟩, first, never, fun onTime => ?_⟩
  obtain ⟨fuel, count, run⟩ := (onTime 0 (by decide)).mpr first
  exact never 0 count fuel run

end UnixProgramming.ProcessControl
