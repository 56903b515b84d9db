import UnixProgramming.Library.DecimalText

/-!
# `%d` of `scanf`

Blanks are skipped, and the digits behind a sign are read as far as they go.
-/

namespace CMemory

/-- `isspace` of the C locale. -/
def isSpace (c : UInt8) : Bool := c = 32 || (9 ≤ c && c ≤ 13)

def isDigit (c : UInt8) : Bool := 48 ≤ c && c ≤ 57

def ofDigits (digits : Block) : Option Int :=
  if digits = [] then none else some (digitsValue digits)

/-- The number at the start of a text, of any size, and what stands behind it. -/
def scanInt (b : Block) : Option (Int × Block) :=
  match b.dropWhile isSpace with
  | 45 :: b => do
      let n ← ofDigits (b.takeWhile isDigit)
      return (-n, b.dropWhile isDigit)
  | 43 :: b => do
      let n ← ofDigits (b.takeWhile isDigit)
      return (n, b.dropWhile isDigit)
  | b => do
      let n ← ofDigits (b.takeWhile isDigit)
      return (n, b.dropWhile isDigit)

theorem isDigit_iff {c : UInt8} : isDigit c = true ↔ 48 ≤ c ∧ c ≤ 57 := by
  rw [isDigit, Bool.and_eq_true, decide_eq_true_eq, decide_eq_true_eq]

/-- What stands behind a number does not go on with digits. -/
def Stops (rest : Block) : Prop := ∀ c ∈ rest.head?, isDigit c = false

theorem digits_decimal (n : Nat) {rest : Block} (stops : Stops rest) :
    (decimal n ++ rest).takeWhile isDigit = decimal n ∧
      (decimal n ++ rest).dropWhile isDigit = rest := by
  have digits : ∀ c ∈ decimal n, isDigit c = true := fun c mem =>
    isDigit_iff.mpr (digit_of_mem_decimal mem)
  rw [List.takeWhile_append_of_pos digits, List.dropWhile_append_of_pos digits]
  cases rest with
  | nil => exact ⟨List.append_nil _, rfl⟩
  | cons c rest =>
      have other : isDigit c = false := stops c rfl
      rw [List.takeWhile_cons, List.dropWhile_cons, other]
      exact ⟨List.append_nil _, rfl⟩

theorem ofDigits_decimal (n : Nat) : ofDigits (decimal n) = some (n : Int) := by
  rw [ofDigits, if_neg (decimal_ne_nil n), digitsValue_decimal]

theorem skip_blanks {blanks b : Block} (spaces : ∀ c ∈ blanks, isSpace c = true)
    (begins : ∀ c ∈ b.head?, isSpace c = false) : (blanks ++ b).dropWhile isSpace = b := by
  rw [List.dropWhile_append_of_pos spaces]
  cases b with
  | nil => rfl
  | cons c b =>
      have other : isSpace c = false := begins c rfl
      rw [List.dropWhile_cons, other]
      rfl

theorem decimal_neg (n : Nat) (positive : 0 < n) : decimal (-n) = 45 :: decimal n := by
  rw [decimal, if_pos (by omega), decimal_natCast, Int.natAbs_neg, Int.natAbs_natCast]
  rfl

/-- A text begins with a digit: no blank and no sign. -/
theorem head_decimal (n : Nat) : ∃ c rest, decimal n = c :: rest ∧ 48 ≤ c ∧ c ≤ 57 := by
  obtain ⟨c, rest, text⟩ := List.exists_cons_of_ne_nil (decimal_ne_nil n)
  exact ⟨c, rest, text, @digit_of_mem_decimal n c (text ▸ List.mem_cons_self)⟩

theorem isSpace_digit {c : UInt8} (lower : 48 ≤ c) : isSpace c = false := by
  rw [UInt8.le_iff_toNat_le] at lower
  have sp : c ≠ 32 := by
    rintro rfl
    exact absurd lower (by decide)
  have big : ¬ c ≤ 13 := by
    rw [UInt8.le_iff_toNat_le]
    have : (48 : UInt8).toNat = 48 := rfl
    have : (13 : UInt8).toNat = 13 := rfl
    omega
  simp [isSpace, sp, big]

theorem scanInt_natCast (k : Nat) {blanks rest : Block} (spaces : ∀ c ∈ blanks, isSpace c = true)
    (stops : Stops rest) : scanInt (blanks ++ (decimal k ++ rest)) = some ((k : Int), rest) := by
  obtain ⟨c, tail, text, lower, upper⟩ := head_decimal k
  have begins : ∀ d ∈ (decimal k ++ rest).head?, isSpace d = false := by
    intro d mem
    rw [text] at mem
    obtain rfl : c = d := Option.some.inj mem
    exact isSpace_digit lower
  obtain ⟨digits, behind⟩ := digits_decimal k stops
  rw [scanInt, skip_blanks spaces begins]
  split
  · rename_i b same
    rw [text] at same
    obtain rfl : c = 45 := (List.cons.inj same).1
    exact absurd lower (by decide)
  · rename_i b same
    rw [text] at same
    obtain rfl : c = 43 := (List.cons.inj same).1
    exact absurd lower (by decide)
  · rw [digits, behind, ofDigits_decimal]
    rfl

/-- What is printed with `%d` is read with `%d`. -/
theorem scanInt_decimal (n : Int) {blanks rest : Block} (spaces : ∀ c ∈ blanks, isSpace c = true)
    (stops : Stops rest) : scanInt (blanks ++ (decimal n ++ rest)) = some (n, rest) := by
  obtain ⟨k, rfl | rfl⟩ := n.eq_nat_or_neg
  · exact scanInt_natCast k spaces stops
  · obtain rfl | positive := k.eq_zero_or_pos
    · exact scanInt_natCast 0 spaces stops
    · obtain ⟨digits, behind⟩ := digits_decimal k stops
      rw [decimal_neg k positive, scanInt, skip_blanks spaces (by simp [isSpace])]
      simp only [List.cons_append, digits, behind, ofDigits_decimal]
      rfl

end CMemory
