import UnixProgramming.Library.CMemory

/-!
# Strings without NUL bytes, and the functions of `string.h`

A string of the program is given by the bytes in front of its NUL. The functions that copy one
into an array fault where they leave the array. `strncpy` fills its range: it pads a shorter
string with NUL bytes, and it cuts a longer one off without a NUL.
-/

namespace CMemory

structure CStr where
  bytes : Block
  plain : 0 ∉ bytes
  deriving DecidableEq

/-- A length stored to an `int`. -/
def toInt (n : Nat) : Int := (BitVec.ofNat 32 n).toInt

theorem toInt_le (n : Nat) : toInt n ≤ n := by
  rw [toInt, BitVec.toInt_ofNat', Int.bmod_def]
  omega

/-- Lengths from 2^31 on do not fit. -/
theorem toInt_eq_iff (n : Nat) : toInt n = n ↔ n < 2147483648 := by
  rw [toInt, BitVec.toInt_ofNat', Int.bmod_def]
  omega

/-- The string at the start of an array. Without a NUL, reading it goes on behind the end. -/
def readString (b : Block) : Except Fault Block :=
  if 0 ∈ b then .ok (cString b) else .error (.outOfBounds b.length)

theorem readString_append_nul {s : Block} (plain : 0 ∉ s) (back : Block) :
    readString (s ++ 0 :: back) = .ok s := by
  rw [readString, if_pos (by simp), cString_append_nul, cString_of_notMem plain]

/-- Comparison of the first `n` bytes, up to a NUL. Behind the bytes of a string stands its
NUL. -/
def strncmp : Nat → Block → Block → Int
  | 0, _, _ => 0
  | n + 1, s, t =>
      if s.headD 0 ≠ t.headD 0 then (s.headD 0).toNat - (t.headD 0).toNat
      else if s.headD 0 = 0 then 0
      else strncmp n s.tail t.tail

/-- With the length of the first string as the limit, it is a test for a prefix. -/
theorem strncmp_eq_zero_iff {s t : Block} (plain : 0 ∉ s) :
    strncmp s.length s t = 0 ↔ s <+: t := by
  induction s generalizing t with
  | nil => simp [strncmp]
  | cons c s ih =>
      obtain ⟨first, later⟩ : 0 ≠ c ∧ 0 ∉ s := by simpa using plain
      rw [List.length_cons, strncmp, List.headD_cons]
      split
      · rename_i differ
        have nonzero : (c.toNat : Int) - (t.headD 0).toNat ≠ 0 := by
          intro same
          exact differ (UInt8.toNat_inj.mp (by omega))
        refine iff_of_false nonzero ?_
        rintro ⟨rest, rfl⟩
        exact differ rfl
      · rename_i same
        have same : c = t.headD 0 := not_not.mp same
        cases t with
        | nil => exact absurd same.symm first
        | cons d t =>
            obtain rfl : c = d := same
            rw [if_neg (Ne.symm first), List.tail_cons, List.tail_cons, ih later,
              List.cons_prefix_cons]
            simp

/-- The `n` bytes that `strncpy` writes. -/
def padded (s : Block) (n : Nat) : Block := s.take n ++ List.replicate (n - s.length) 0

@[simp] theorem length_padded (s : Block) (n : Nat) : (padded s n).length = n := by
  simp [padded]
  omega

theorem padded_of_length_le {s : Block} {n : Nat} (fits : s.length ≤ n) :
    padded s n = s ++ List.replicate (n - s.length) 0 := by
  rw [padded, List.take_of_length_le fits]

/-- A string that fits with its NUL is followed by one. -/
theorem padded_of_lt {s : Block} {n : Nat} (fits : s.length < n) :
    padded s n = s ++ 0 :: List.replicate (n - s.length - 1) 0 := by
  obtain ⟨k, count⟩ : ∃ k, n - s.length = k + 1 := ⟨n - s.length - 1, by omega⟩
  rw [padded_of_length_le fits.le, count, Nat.add_sub_cancel, List.replicate_succ]

theorem padded_of_le {s : Block} {n : Nat} (long : n ≤ s.length) : padded s n = s.take n := by
  rw [padded, Nat.sub_eq_zero_of_le long, List.replicate_zero, List.append_nil]

/-- What can be read behind a copy that was not cut off. -/
theorem cString_padded_of_lt {s : Block} {n : Nat} (plain : 0 ∉ s) (fits : s.length < n)
    (back : Block) : cString (padded s n ++ back) = s := by
  rw [padded_of_lt fits, List.append_assoc, List.cons_append, cString_append_nul,
    cString_of_notMem plain]

/-- A copy that was cut off goes on with what stands behind it. -/
theorem cString_padded_of_le {s : Block} {n : Nat} (plain : 0 ∉ s) (long : n ≤ s.length)
    (back : Block) : cString (padded s n ++ back) = s.take n ++ cString back := by
  rw [padded_of_le long]
  exact cString_append (fun mem => plain (List.mem_of_mem_take mem)) back

theorem take_padded (s : Block) {m n : Nat} (le : m ≤ n) : (padded s n).take m = padded s m := by
  rw [padded, List.take_append, List.take_take, List.take_replicate, List.length_take, padded,
    Nat.min_eq_left le]
  congr 2
  omega

theorem cString_padded {s : Block} (plain : 0 ∉ s) (n : Nat) :
    cString (padded s n) = s.take n := by
  obtain fits | long := lt_or_ge s.length n
  · rw [← List.append_nil (padded s n), cString_padded_of_lt plain fits,
      List.take_of_length_le fits.le]
  · rw [← List.append_nil (padded s n), cString_padded_of_le plain long]
    exact List.append_nil _

/-- `strncpy(&b[i], s, n)`. -/
def strncpy (b : Block) (i : Nat) (s : Block) (n : Nat) : Except Fault Block :=
  if i + n ≤ b.length then .ok (b.take i ++ padded s n ++ b.drop (i + n))
  else .error (.outOfBounds (max i b.length))

theorem strncpy_zero {b s : Block} {n : Nat} (room : n ≤ b.length) :
    strncpy b 0 s n = .ok (padded s n ++ b.drop n) := by
  rw [strncpy, if_pos (by omega), Nat.zero_add]
  rfl

end CMemory
