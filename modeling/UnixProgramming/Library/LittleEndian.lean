import UnixProgramming.Library.CMemory
import Mathlib.Data.Nat.Digits.Defs

/-!
# Integers in memory

A `long` is eight bytes in two's complement, the lowest byte first.
-/

namespace CMemory

/-- The lowest bytes of a number. -/
def bytesOfNat : Nat → Nat → Block
  | 0, _ => []
  | size + 1, n => UInt8.ofNat n :: bytesOfNat size (n / 256)

def natOfBytes (b : Block) : Nat := Nat.ofDigits 256 (b.map UInt8.toNat)

theorem length_bytesOfNat (size n : Nat) : (bytesOfNat size n).length = size := by
  induction size generalizing n with
  | zero => rfl
  | succ size ih => rw [bytesOfNat, List.length_cons, ih]

/-- What does not fit into the bytes is lost. -/
theorem natOfBytes_bytesOfNat (size n : Nat) :
    natOfBytes (bytesOfNat size n) = n % 256 ^ size := by
  induction size generalizing n with
  | zero => simp [bytesOfNat, natOfBytes, Nat.mod_one]
  | succ size ih =>
      have tail : Nat.ofDigits 256 ((bytesOfNat size (n / 256)).map UInt8.toNat) =
          n / 256 % 256 ^ size := ih (n / 256)
      rw [natOfBytes, bytesOfNat, List.map_cons, Nat.ofDigits_cons, tail, Nat.pow_succ',
        Nat.mod_mul, UInt8.toNat_ofNat']

def longBytes (v : Int) : Block := bytesOfNat 8 (BitVec.ofInt 64 v).toNat

def longOfBytes (b : Block) : Int := (BitVec.ofNat 64 (natOfBytes b)).toInt

/-- The number fits into a `long`. -/
def IsLong (v : Int) : Prop := -9223372036854775808 ≤ v ∧ v ≤ 9223372036854775807

instance : DecidablePred IsLong := fun v =>
  inferInstanceAs (Decidable (-9223372036854775808 ≤ v ∧ v ≤ 9223372036854775807))

theorem length_longBytes (v : Int) : (longBytes v).length = 8 := length_bytesOfNat 8 _

theorem longOfBytes_longBytes {v : Int} (h : IsLong v) : longOfBytes (longBytes v) = v := by
  obtain ⟨lower, upper⟩ := h
  rw [longOfBytes, longBytes, natOfBytes_bytesOfNat]
  have whole : (BitVec.ofInt 64 v).toNat % 256 ^ 8 = (BitVec.ofInt 64 v).toNat :=
    Nat.mod_eq_of_lt (BitVec.isLt _)
  rw [whole, BitVec.ofNat_toNat, BitVec.setWidth_eq, BitVec.toInt_ofInt, Int.bmod_def]
  omega

end CMemory
