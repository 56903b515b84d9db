import Mathlib.Order.Defs.LinearOrder

/-!
# Times as seconds and nanoseconds

A time is a pair of counters. It is normalised when the nanoseconds are less than a second, and
normalised times are ordered lexicographically. A sum carries one second at most. It is the sum
of the times in nanoseconds, by which a normalised time is known.
-/

namespace PosixTime

structure Timespec where
  tvSec : Int
  tvNsec : Int
  deriving DecidableEq, Repr

/-- Nanoseconds in a second. -/
def second : Int := 1000000000

namespace Timespec

def Normalised (t : Timespec) : Prop := 0 ≤ t.tvNsec ∧ t.tvNsec < second

instance : DecidablePred Normalised := fun t =>
  inferInstanceAs (Decidable (0 ≤ t.tvNsec ∧ t.tvNsec < second))

/-- The whole time in nanoseconds. -/
def nanos (t : Timespec) : Int := t.tvSec * second + t.tvNsec

instance : LE Timespec :=
  ⟨fun a b => a.tvSec < b.tvSec ∨ a.tvSec = b.tvSec ∧ a.tvNsec ≤ b.tvNsec⟩

theorem le_def {a b : Timespec} :
    a ≤ b ↔ a.tvSec < b.tvSec ∨ a.tvSec = b.tvSec ∧ a.tvNsec ≤ b.tvNsec := Iff.rfl

instance (a b : Timespec) : Decidable (a ≤ b) :=
  inferInstanceAs (Decidable (a.tvSec < b.tvSec ∨ a.tvSec = b.tvSec ∧ a.tvNsec ≤ b.tvNsec))

instance : Add Timespec :=
  ⟨fun a b =>
    if a.tvNsec + b.tvNsec < second then ⟨a.tvSec + b.tvSec, a.tvNsec + b.tvNsec⟩
    else ⟨a.tvSec + b.tvSec + 1, a.tvNsec + b.tvNsec - second⟩⟩

variable {a b : Timespec}

theorem add_def (a b : Timespec) :
    a + b = if a.tvNsec + b.tvNsec < second then ⟨a.tvSec + b.tvSec, a.tvNsec + b.tvNsec⟩
      else ⟨a.tvSec + b.tvSec + 1, a.tvNsec + b.tvNsec - second⟩ := rfl

theorem nanos_add (a b : Timespec) : (a + b).nanos = a.nanos + b.nanos := by
  rw [add_def]
  split
  · simp only [nanos, second]
    omega
  · simp only [nanos, second]
    omega

theorem Normalised.add (ha : a.Normalised) (hb : b.Normalised) : (a + b).Normalised := by
  obtain ⟨ha, ha'⟩ := ha
  obtain ⟨hb, hb'⟩ := hb
  rw [add_def]
  split
  · constructor
    · show 0 ≤ a.tvNsec + b.tvNsec
      omega
    · assumption
  · constructor
    · show 0 ≤ a.tvNsec + b.tvNsec - second
      omega
    · show a.tvNsec + b.tvNsec - second < second
      omega

/-- A normalised time is known by its nanoseconds. -/
theorem Normalised.ext (ha : a.Normalised) (hb : b.Normalised) (same : a.nanos = b.nanos) :
    a = b := by
  simp only [Normalised, nanos, second] at *
  obtain ⟨s, n⟩ := a
  obtain ⟨s', n'⟩ := b
  simp only at *
  have seconds : s = s' := by omega
  have rest : n = n' := by omega
  rw [seconds, rest]

end Timespec

end PosixTime
