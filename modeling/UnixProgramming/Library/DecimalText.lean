import Mathlib.Data.Nat.Digits.Defs
import Mathlib.Tactic.Common
import UnixProgramming.Library.CMemory

/-!
# Numbers in texts

The text of a number tells the number, and a separator that is no digit tells where it ends. So
the parts of a text that is put together from numbers and separators can be read back.
-/

namespace CMemory

variable {α : Type*}

/-- A list is cut at the first occurrence of a separator in one way only. -/
theorem append_cons_inj_first {sep : α} {xs ys us vs : List α} (hx : sep ∉ xs) (hy : sep ∉ ys) :
    xs ++ sep :: us = ys ++ sep :: vs ↔ xs = ys ∧ us = vs := by
  constructor
  · intro same
    induction xs generalizing ys with
    | nil =>
        cases ys with
        | nil => exact ⟨rfl, (List.cons.inj same).2⟩
        | cons y ys => exact absurd (List.mem_cons.mpr (.inl (List.cons.inj same).1)) hy
    | cons x xs ih =>
        cases ys with
        | nil => exact absurd (List.mem_cons.mpr (.inl (List.cons.inj same).1.symm)) hx
        | cons y ys =>
            obtain ⟨rfl, rest⟩ := List.cons.inj same
            obtain ⟨rfl, rfl⟩ := ih (fun mem => hx (List.mem_cons_of_mem x mem))
              (fun mem => hy (List.mem_cons_of_mem x mem)) rest
            exact ⟨rfl, rfl⟩
  · rintro ⟨rfl, rfl⟩
    rfl

/-- The same at the last occurrence. -/
theorem append_cons_inj_last {sep : α} {xs ys us vs : List α} (hu : sep ∉ us) (hv : sep ∉ vs) :
    xs ++ sep :: us = ys ++ sep :: vs ↔ xs = ys ∧ us = vs := by
  rw [← List.reverse_inj, List.reverse_append, List.reverse_append, List.reverse_cons,
    List.reverse_cons, List.append_assoc, List.append_assoc, List.singleton_append,
    List.singleton_append, append_cons_inj_first (by simpa using hu) (by simpa using hv),
    List.reverse_inj, List.reverse_inj]
  exact and_comm

/-- The number that a text of digits stands for. -/
def digitsValue (b : Block) : Nat := b.foldl (fun value c => 10 * value + (c.toNat - 48)) 0

theorem decimal_natCast (n : Nat) : decimal n = ofChars (Nat.toDigits 10 n) := by
  rw [decimal, if_neg (Int.not_lt.mpr (Int.natCast_nonneg n)), Int.natAbs_natCast]

theorem toNat_of_isDigit {d : Char} (digit : d.isDigit = true) : 48 ≤ d.toNat ∧ d.toNat ≤ 57 := by
  simp only [Char.isDigit, Bool.and_eq_true, decide_eq_true_eq, ge_iff_le,
    UInt32.le_iff_toNat_le] at digit
  exact digit

/-- The text of a number consists of digits. -/
theorem digit_of_mem_decimal {n : Nat} {c : UInt8} (mem : c ∈ decimal n) : 48 ≤ c ∧ c ≤ 57 := by
  rw [decimal_natCast] at mem
  obtain ⟨d, hd, rfl⟩ := List.mem_map.mp mem
  obtain ⟨lower, upper⟩ :=
    toNat_of_isDigit (Nat.isDigit_of_mem_toDigits (by decide) (by decide) hd)
  have fits : (UInt8.ofNat d.toNat).toNat = d.toNat := by
    rw [UInt8.toNat_ofNat']
    omega
  rw [UInt8.le_iff_toNat_le, UInt8.le_iff_toNat_le, fits]
  exact ⟨lower, upper⟩

theorem notMem_decimal {sep : UInt8} (noDigit : sep < 48 ∨ 57 < sep) (n : Nat) :
    sep ∉ decimal n := by
  intro mem
  obtain ⟨lower, upper⟩ := digit_of_mem_decimal mem
  obtain less | more := noDigit
  · exact absurd lower (UInt8.not_le.mpr less)
  · exact absurd upper (UInt8.not_le.mpr more)

/-- The text of a number can be read back. -/
theorem digitsValue_decimal (n : Nat) : digitsValue (decimal n) = n := by
  have digits : ∀ cs : List Char, (∀ c ∈ cs, c.toNat < 256) → ∀ init,
      (ofChars cs).foldl (fun value c => 10 * value + (c.toNat - 48)) init =
        Nat.ofDigitChars 10 cs init := by
    intro cs small
    induction cs with
    | nil => exact fun _ => rfl
    | cons c cs ih =>
        intro init
        have here : (UInt8.ofNat c.toNat).toNat = c.toNat := by
          rw [UInt8.toNat_ofNat', Nat.mod_eq_of_lt (small c List.mem_cons_self)]
        have first : ofChars (c :: cs) = UInt8.ofNat c.toNat :: ofChars cs := rfl
        rw [first, List.foldl_cons, here, ih fun d mem => small d (List.mem_cons_of_mem c mem),
          Nat.ofDigitChars_cons]
        rfl
  rw [decimal_natCast, digitsValue, digits]
  · exact Nat.ofDigitChars_ten_toDigits
  · intro c mem
    have upper := (toNat_of_isDigit (Nat.isDigit_of_mem_toDigits (by decide) (by decide) mem)).2
    omega

theorem decimal_inj {m n : Nat} : decimal m = decimal n ↔ m = n := by
  constructor
  · intro same
    rw [← digitsValue_decimal m, ← digitsValue_decimal n, same]
  · rintro rfl
    rfl

theorem length_decimal_le {n k : Nat} (positive : 0 < k) (small : n < 10 ^ k) :
    (decimal n).length ≤ k := by
  rw [decimal_natCast, ofChars, List.length_map]
  exact Nat.toDigits_length 10 n k positive small

theorem decimal_ne_nil (n : Nat) : decimal n ≠ [] := by
  rw [decimal_natCast, ofChars, Ne, List.map_eq_nil_iff]
  exact Nat.toDigits_ne_nil

/-- A text of digits stands for a number that has no more digits. -/
theorem digitsValue_lt {b : Block} (digits : ∀ c ∈ b, 48 ≤ c ∧ c ≤ 57) :
    digitsValue b < 10 ^ b.length := by
  have bound : ∀ init, b.foldl (fun value c => 10 * value + (c.toNat - 48)) init <
      (init + 1) * 10 ^ b.length := by
    induction b with
    | nil =>
        intro init
        simp
    | cons c b ih =>
        intro init
        have upper := UInt8.le_iff_toNat_le.mp (digits c List.mem_cons_self).2
        have digit : c.toNat ≤ 57 := upper
        rw [List.foldl_cons, List.length_cons, Nat.pow_succ']
        calc b.foldl (fun value c => 10 * value + (c.toNat - 48)) (10 * init + (c.toNat - 48))
          _ < (10 * init + (c.toNat - 48) + 1) * 10 ^ b.length :=
              ih (fun d mem => digits d (List.mem_cons_of_mem c mem)) _
          _ ≤ ((init + 1) * 10) * 10 ^ b.length := by
              apply Nat.mul_le_mul_right
              omega
          _ = (init + 1) * (10 * 10 ^ b.length) := Nat.mul_assoc _ _ _
  simpa [digitsValue] using bound 0

/-- The text of a number has no leading zero, but for the number zero. -/
theorem decimal_leading_zero {n : Nat} {rest : Block} (lead : decimal n = 48 :: rest) :
    rest = [] := by
  have digits (c : UInt8) (mem : c ∈ rest) : 48 ≤ c ∧ c ≤ 57 := by
    apply @digit_of_mem_decimal n
    rw [lead]
    exact List.mem_cons_of_mem 48 mem
  have value : digitsValue rest = n := by
    rw [← digitsValue_decimal n, lead]
    rfl
  have small := digitsValue_lt digits
  rw [value] at small
  by_contra more
  have short := length_decimal_le (List.length_pos_iff.mpr more) small
  rw [lead, List.length_cons] at short
  omega

/-- `'.'`. -/
def dot : UInt8 := 46

/-- The texts of the numbers in a dotted text: decimal, without leading zeros, below 256. -/
structure Octet (text : Block) : Prop where
  nonempty : text ≠ []
  digits : ∀ c ∈ text, 48 ≤ c ∧ c ≤ 57
  lead : text.head? = some 48 → text.tail = []
  small : digitsValue text < 256

/-- The test of a part. -/
def isOctet (text : Block) : Bool :=
  !text.isEmpty && text.all (fun c => 48 ≤ c && c ≤ 57) &&
    (text.head? != some 48 || text.tail.isEmpty) && decide (digitsValue text < 256)

theorem Octet.isOctet {text : Block} (octet : Octet text) : isOctet text = true := by
  have lead : text.head? ≠ some 48 ∨ text.tail = [] := by
    by_cases first : text.head? = some 48
    · exact .inr (octet.lead first)
    · exact .inl first
  simp only [CMemory.isOctet, Bool.and_eq_true, Bool.not_eq_true', List.isEmpty_eq_false_iff,
    List.all_eq_true, decide_eq_true_eq, Bool.or_eq_true, bne_iff_ne, List.isEmpty_iff]
  exact ⟨⟨⟨octet.nonempty, octet.digits⟩, lead⟩, octet.small⟩

theorem octet_decimal (b : UInt8) : Octet (decimal b.toNat) where
  nonempty := decimal_ne_nil _
  digits _ := digit_of_mem_decimal
  lead first := by
    obtain ⟨rest, text⟩ := List.head?_eq_some_iff.mp first
    rw [text, List.tail_cons, decimal_leading_zero text]
  small := by
    rw [digitsValue_decimal]
    exact b.toNat_lt

theorem Octet.dot_notMem {text : Block} (octet : Octet text) : dot ∉ text := by
  intro mem
  have lower := (octet.digits dot mem).1
  exact absurd lower (by decide)

def octetValue (text : Block) : UInt8 := UInt8.ofNat (digitsValue text)

theorem octetValue_decimal (b : UInt8) : octetValue (decimal b.toNat) = b := by
  rw [octetValue, digitsValue_decimal, UInt8.ofNat_toNat]

/-- Four parts with dots between them. -/
def quad (t u v w : Block) : Block := t ++ dot :: (u ++ dot :: (v ++ dot :: w))

/-- The dotted text of an IPv4 address. -/
def dotted (a : Vector UInt8 4) : Block :=
  decimal a[0].toNat ++ dot :: (decimal a[1].toNat ++ dot :: (decimal a[2].toNat ++
    dot :: decimal a[3].toNat))

theorem dotted_eq_quad (a : Vector UInt8 4) :
    dotted a = quad (decimal a[0].toNat) (decimal a[1].toNat) (decimal a[2].toNat)
      (decimal a[3].toNat) := rfl

theorem dotted_injective {a b : Vector UInt8 4} (same : dotted a = dotted b) : a = b := by
  have noDot (n : Nat) : dot ∉ decimal n := notMem_decimal (.inl (by decide)) n
  obtain ⟨first, same⟩ := (append_cons_inj_first (noDot _) (noDot _)).mp same
  obtain ⟨second, same⟩ := (append_cons_inj_first (noDot _) (noDot _)).mp same
  obtain ⟨third, fourth⟩ := (append_cons_inj_first (noDot _) (noDot _)).mp same
  ext i inside
  obtain rfl | rfl | rfl | rfl : i = 0 ∨ i = 1 ∨ i = 2 ∨ i = 3 := by omega
  · exact decimal_inj.mp first
  · exact decimal_inj.mp second
  · exact decimal_inj.mp third
  · exact decimal_inj.mp fourth

theorem nul_notMem_dotted (a : Vector UInt8 4) : 0 ∉ dotted a := by
  have noNul (n : Nat) : (0 : UInt8) ∉ decimal n := notMem_decimal (.inl (by decide)) n
  have noDot : 0 ≠ dot := by decide
  simp [dotted, noNul, noDot]

theorem length_dotted_le (a : Vector UInt8 4) : (dotted a).length ≤ 15 := by
  have short (b : UInt8) : (decimal b.toNat).length ≤ 3 := by
    apply length_decimal_le (by decide)
    have := b.toNat_lt
    omega
  have h0 := short a[0]
  have h1 := short a[1]
  have h2 := short a[2]
  have h3 := short a[3]
  simp only [dotted, List.length_append, List.length_cons]
  omega

/-- A list that is put together from parts of known lengths tells the parts. -/
theorem flatMap_inj {ι : Type*} {f g : ι → List α} {is : List ι}
    (lengths : ∀ i ∈ is, (f i).length = (g i).length) (same : is.flatMap f = is.flatMap g) :
    ∀ i ∈ is, f i = g i := by
  induction is with
  | nil => exact fun i mem => absurd mem List.not_mem_nil
  | cons j is ih =>
      rw [List.flatMap_cons, List.flatMap_cons] at same
      obtain ⟨here, rest⟩ := List.append_inj same (lengths j List.mem_cons_self)
      have later := ih (fun i mem => lengths i (List.mem_cons_of_mem j mem)) rest
      intro i mem
      obtain rfl | mem := List.mem_cons.mp mem
      · exact here
      · exact later i mem

def hexDigit (n : Nat) : UInt8 := UInt8.ofNat (if n < 10 then 48 + n else 87 + n)

theorem hexDigit_inj : ∀ m n : Fin 16, hexDigit m = hexDigit n → m = n := by decide

theorem hexDigit_ne_zero : ∀ n : Fin 16, 0 ≠ hexDigit n := by decide

def hexByte (b : UInt8) : Block := [hexDigit (b.toNat / 16), hexDigit (b.toNat % 16)]

theorem div_sixteen_lt (b : UInt8) : b.toNat / 16 < 16 := by
  have := b.toNat_lt
  omega

theorem hexByte_injective {b c : UInt8} (same : hexByte b = hexByte c) : b = c := by
  obtain ⟨high, low⟩ : hexDigit (b.toNat / 16) = hexDigit (c.toNat / 16) ∧
      hexDigit (b.toNat % 16) = hexDigit (c.toNat % 16) := by
    simpa [hexByte] using same
  have sameHigh := hexDigit_inj ⟨_, div_sixteen_lt b⟩ ⟨_, div_sixteen_lt c⟩ high
  have sameLow := hexDigit_inj ⟨_, Nat.mod_lt b.toNat (by decide)⟩
    ⟨_, Nat.mod_lt c.toNat (by decide)⟩ low
  rw [Fin.mk.injEq] at sameHigh sameLow
  apply UInt8.toNat_inj.mp
  omega

/-- The colon before every second byte. -/
def hexGroup (i : Fin 16) (b : UInt8) : Block :=
  (if i.val % 2 = 0 ∧ i.val ≠ 0 then ascii ":" else []) ++ hexByte b

/-- The text of an IPv6 address with all its digits. -/
def hextets (a : Vector UInt8 16) : Block := (List.finRange 16).flatMap fun i => hexGroup i a[i]

theorem hextets_injective {a b : Vector UInt8 16} (same : hextets a = hextets b) : a = b := by
  have groups := flatMap_inj (fun i _ => by rw [hexGroup, hexGroup]; simp [hexByte]) same
  ext i inside
  exact congrArg UInt8.toNat
    (hexByte_injective (List.append_cancel_left (groups ⟨i, inside⟩ (List.mem_finRange _))))

theorem nul_notMem_hextets (a : Vector UInt8 16) : 0 ∉ hextets a := by
  intro mem
  obtain ⟨i, -, mem⟩ := List.mem_flatMap.mp mem
  have high := hexDigit_ne_zero ⟨_, div_sixteen_lt a[i]⟩
  have low := hexDigit_ne_zero ⟨_, Nat.mod_lt a[i].toNat (by decide)⟩
  have noColon : 0 ∉ ascii ":" := by decide
  rw [hexGroup] at mem
  split at mem <;> simp_all [hexByte]

theorem length_hextets (a : Vector UInt8 16) : (hextets a).length = 39 := by
  have group (i : Fin 16) (b : UInt8) :
      (hexGroup i b).length = if i.val % 2 = 0 ∧ i.val ≠ 0 then 3 else 2 := by
    rw [hexGroup]
    split <;> rfl
  simp only [hextets, List.length_flatMap, group]
  rfl

end CMemory
