import Mathlib.Data.List.TakeWhile

/-!
# Arrays and strings of a C program

An array is the list of its elements. Loads and stores outside it are faults, so a
computation that ends without a fault has stayed inside its arrays. A block is an
array of bytes, and the string in it is what lies before its first NUL byte.
-/

namespace CMemory

abbrev Block := List UInt8

inductive Fault
  | outOfBounds (index : Nat)
  | nullPointer
  deriving DecidableEq, Repr

variable {α : Type*}

def load (b : List α) (i : Nat) : Except Fault α :=
  match b[i]? with
  | some c => .ok c
  | none => .error (.outOfBounds i)

def store (b : List α) (i : Nat) (c : α) : Except Fault (List α) :=
  if i < b.length then .ok (b.set i c) else .error (.outOfBounds i)

theorem load_eq {b : List α} {i : Nat} {c : α} (at_ : b[i]? = some c) : load b i = .ok c := by
  rw [load, at_]

theorem load_ok {b : List α} {i : Nat} {c : α} (loaded : load b i = .ok c) : b[i]? = some c := by
  rw [load] at loaded
  split at loaded
  · rename_i at_
    cases loaded
    exact at_
  · cases loaded

theorem store_eq {b : List α} {i : Nat} (inside : i < b.length) (c : α) :
    store b i c = .ok (b.set i c) := if_pos inside

theorem store_ok {b b' : List α} {i : Nat} {c : α} (stored : store b i c = .ok b') :
    i < b.length ∧ b' = b.set i c := by
  rw [store] at stored
  split at stored
  · rename_i inside
    cases stored
    exact ⟨inside, rfl⟩
  · cases stored

/-- A range that is read or written as a whole. -/
def loadRange (b : List α) (i count : Nat) : Except Fault (List α) :=
  if i + count ≤ b.length then .ok ((b.drop i).take count)
  else .error (.outOfBounds (max i b.length))

def storeRange (b : List α) (i : Nat) (cs : List α) : Except Fault (List α) :=
  if i + cs.length ≤ b.length then .ok (b.take i ++ cs ++ b.drop (i + cs.length))
  else .error (.outOfBounds (max i b.length))

/-- Overwrite the first bytes of a block, as a `read` into it does. -/
def fill (b bytes : Block) : Block := bytes ++ b.drop bytes.length

/-- A `read` leaves its bytes at the start of the block. -/
theorem take_fill (b bytes : Block) : (fill b bytes).take bytes.length = bytes := by
  simp [fill]

theorem load_append_cons (front back : List α) (c : α) :
    load (front ++ c :: back) front.length = .ok c := by
  simp [load]

theorem store_append_cons (front back : List α) (old c : α) :
    store (front ++ old :: back) front.length c = .ok (front ++ c :: back) := by
  simp [store]

/-- A store at the position that follows `front`. -/
theorem store_of_split {b front back : List α} {old : α} {i : Nat} (c : α)
    (split : b = front ++ old :: back) (position : i = front.length) :
    store b i c = .ok (front ++ c :: back) := by
  rw [split, position, store_append_cons]

/-- A load inside of the array. -/
theorem loadRange_eq {b : List α} {i count : Nat} (inside : i + count ≤ b.length) :
    loadRange b i count = .ok ((b.drop i).take count) := if_pos inside

theorem length_take_drop {b : List α} {i count : Nat} (inside : i + count ≤ b.length) :
    ((b.drop i).take count).length = count := by
  rw [List.length_take, List.length_drop]
  omega

/-- A store over the beginning of what follows `front`. -/
theorem storeRange_of_split {b front back cs : List α} {i : Nat} (split : b = front ++ back)
    (position : i = front.length) (fits : cs.length ≤ back.length) :
    storeRange b i cs = .ok (front ++ cs ++ back.drop cs.length) := by
  subst split position
  rw [storeRange, if_pos (by simpa using fits), List.take_left, List.drop_append,
    List.drop_eq_nil_of_le (by omega), Nat.add_sub_cancel_left, List.nil_append]

/-- A store at the start of an array. -/
theorem storeRange_zero {b cs : Block} (fits : cs.length ≤ b.length) :
    storeRange b 0 cs = .ok (fill b cs) :=
  storeRange_of_split (List.nil_append b).symm rfl fits

theorem length_fill {b bytes : Block} (fits : bytes.length ≤ b.length) :
    (fill b bytes).length = b.length := by
  simp [fill]
  omega

/-- The bytes of a text of the source, one for each of its ASCII characters. -/
def ofChars (cs : List Char) : Block := cs.map fun c => UInt8.ofNat c.toNat

def ascii (s : String) : Block := ofChars s.toList

/-- The `%d` text of a number. -/
def decimal (n : Int) : Block :=
  if n < 0 then ascii "-" ++ ofChars (Nat.toDigits 10 n.natAbs)
  else ofChars (Nat.toDigits 10 n.natAbs)

theorem printable_of_isDigit {d : Char} (h : d.isDigit = true) :
    33 ≤ UInt8.ofNat d.toNat := by
  simp only [Char.isDigit, Bool.and_eq_true, decide_eq_true_eq, ge_iff_le, UInt32.le_iff_toNat_le]
    at h
  have lower : 48 ≤ d.toNat := h.1
  have upper : d.toNat ≤ 57 := h.2
  rw [UInt8.le_iff_toNat_le, UInt8.toNat_ofNat']
  have : (33 : UInt8).toNat = 33 := rfl
  omega

/-- The text of a number has no control characters and no spaces. -/
theorem decimal_printable (n : Int) : ∀ c ∈ decimal n, 33 ≤ c := by
  have digits : ∀ c ∈ ofChars (Nat.toDigits 10 n.natAbs), 33 ≤ c := by
    intro c hc
    obtain ⟨d, hd, rfl⟩ := List.mem_map.mp hc
    exact printable_of_isDigit (Nat.isDigit_of_mem_toDigits (by decide) (by decide) hd)
  have sign : ∀ c ∈ ascii "-", 33 ≤ c := by simp [ascii, ofChars]
  intro c hc
  rw [decimal] at hc
  split at hc
  · obtain inSign | digit := List.mem_append.mp hc
    · exact sign c inSign
    · exact digits c digit
  · exact digits c hc

/-- The bytes before the first NUL of the block. -/
def cString (b : Block) : Block := b.takeWhile (· ≠ 0)

def strlen (b : Block) : Nat := (cString b).length

/-- The first `strlen` bytes are the string. -/
theorem take_strlen (b : Block) : b.take (strlen b) = cString b :=
  (List.prefix_iff_eq_take.mp (List.takeWhile_prefix _)).symm

theorem strlen_le (b : Block) : strlen b ≤ b.length := (List.takeWhile_prefix _).length_le

/-- There is no NUL before the end of the string. -/
theorem notMem_take_of_le_strlen {b : Block} {k : Nat} (short : k ≤ strlen b) : 0 ∉ b.take k := by
  intro mem
  rw [← min_eq_left short, ← List.take_take, take_strlen] at mem
  have := List.mem_takeWhile_imp (List.mem_of_mem_take mem)
  simp at this

@[simp] theorem cString_nul (b : Block) : cString (0 :: b) = [] := rfl

@[simp] theorem cString_append_nul (s b : Block) : cString (s ++ 0 :: b) = cString s := by
  induction s with
  | nil => rfl
  | cons c s ih =>
      by_cases h : c = 0
      · simp [h]
      · simpa [cString, List.takeWhile_cons, h] using ih

theorem cString_eq_nil_iff (b : Block) : cString b = [] ↔ b = [] ∨ b.head? = some 0 := by
  cases b with
  | nil => simp [cString]
  | cons c b => by_cases h : c = 0 <;> simp [cString, h]

/-- A string without NUL bytes is the whole string before its terminator. -/
theorem cString_of_notMem {s : Block} (h : (0 : UInt8) ∉ s) : cString s = s :=
  List.takeWhile_eq_self_iff.mpr fun c hc => by
    simpa using fun (eq : c = 0) => h (eq ▸ hc)

theorem strlen_append_nul {text : Block} (plain : 0 ∉ text) (back : Block) :
    strlen (text ++ 0 :: back) = text.length := by
  rw [strlen, cString_append_nul, cString_of_notMem plain]

theorem cString_append {s : Block} (h : (0 : UInt8) ∉ s) (b : Block) :
    cString (s ++ b) = s ++ cString b :=
  List.takeWhile_append_of_pos fun c hc => by
    simpa using fun (eq : c = 0) => h (eq ▸ hc)

end CMemory
