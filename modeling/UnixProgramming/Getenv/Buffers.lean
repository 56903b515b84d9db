import UnixProgramming.Getenv.Lookup
import UnixProgramming.Library.Transition

/-!
# `getenv_m` and `getenv_r_m2`

Both copy at most 4095 bytes of a value into a buffer of 4096. `strncpy` does not terminate a
value that fills its limit, so what ends the string there is the last byte of the buffer, which
neither function stores to. The buffer of `getenv_m` is static and zero from the start. The one
of `getenv_r_m2` belongs to the thread and comes from `malloc`.
-/

namespace UnixProgramming.Getenv

open CMemory Fallible Transition

def MAXSTRINGSZ : Nat := 4096

/-- The static buffer, and the buffer of the thread behind `key`. -/
structure Buffers where
  envbufM : Block
  envbuf : Option Block
  deriving DecidableEq

namespace Buffers

def init : Buffers := ⟨List.replicate MAXSTRINGSZ 0, none⟩

/-- The value is what the caller finds at the pointer that it gets. -/
def getenvM (s : Buffers) (environ : Environ) (name : CStr) :
    Except Fault (Option Block × Buffers) := do
  match ← findEntry name environ with
  | none => return (none, s)
  | some entry =>
      let envbufM ← strncpy s.envbufM 0 (entry.drop 1) (MAXSTRINGSZ - 1)
      return (some envbufM, ⟨envbufM, s.envbuf⟩)

/-- `malloc` is what `malloc` returns, if it is called. -/
def getenvRM2 (s : Buffers) (environ : Environ) (name : CStr) (malloc : Option Block) :
    Except Fault (Option Block × Buffers) :=
  match s.envbuf.or malloc with
  | none => .ok (none, s)
  | some envbuf => do
      match ← findEntry name environ with
      | none => return (none, ⟨s.envbufM, some envbuf⟩)
      | some entry =>
          let envbuf ← strncpy envbuf 0 (entry.drop 1) (MAXSTRINGSZ - 1)
          return (some envbuf, ⟨s.envbufM, some envbuf⟩)

end Buffers

/-- A lookup in the environment of its time. -/
inductive Lookup
  | getenvM (environ : Environ) (name : CStr)
  | getenvRM2 (environ : Environ) (name : CStr) (malloc : Option Block)

/-- `malloc` returns as much memory as it was asked for, with anything in it. -/
def Lookup.Enabled : Lookup → Prop
  | getenvM _ _ => True
  | getenvRM2 _ _ malloc => ∀ b, malloc = some b → b.length = MAXSTRINGSZ

def Buffers.run (s : Buffers) : Lookup → Except Fault Buffers
  | .getenvM environ name => Prod.snd <$> s.getenvM environ name
  | .getenvRM2 environ name malloc => Prod.snd <$> s.getenvRM2 environ name malloc

def Step (s : Buffers) (act : Lookup) (s' : Buffers) : Prop := act.Enabled ∧ s.run act = .ok s'

/-- A terminated string at the pointer, which is the value cut to the size of a buffer. -/
def Shows (v : Block) (result : Option Block) : Prop :=
  ∃ b, result = some b ∧ 0 ∈ b ∧ cString b = v.take (MAXSTRINGSZ - 1)

/-- Both functions find nothing, or both return the value. -/
def Agree (environ : Environ) (name : CStr) (left right : Option Block) : Prop :=
  match value name environ with
  | none => left = none ∧ right = none
  | some v => Shows v left ∧ Shows v right

/-! ## One copy -/

section Copy

variable {b v : Block}

theorem copy_eq (size : b.length = MAXSTRINGSZ) (v : Block) :
    strncpy b 0 v (MAXSTRINGSZ - 1) =
      .ok (padded v (MAXSTRINGSZ - 1) ++ b.drop (MAXSTRINGSZ - 1)) :=
  strncpy_zero (by omega)

/-- The last byte of a buffer is all that a copy leaves of it. -/
theorem drop_eq_last (size : b.length = MAXSTRINGSZ) :
    ∃ c, b.drop (MAXSTRINGSZ - 1) = [c] ∧ b[MAXSTRINGSZ - 1]? = some c := by
  have inside : MAXSTRINGSZ - 1 < b.length := by
    rw [size]
    decide
  refine ⟨b[MAXSTRINGSZ - 1], ?_, List.getElem?_eq_getElem inside⟩
  rw [List.drop_eq_getElem_cons inside, List.drop_eq_nil_of_le]
  rw [size]
  decide

theorem length_copy (size : b.length = MAXSTRINGSZ) (v : Block) :
    (padded v (MAXSTRINGSZ - 1) ++ b.drop (MAXSTRINGSZ - 1)).length = MAXSTRINGSZ := by
  rw [List.length_append, length_padded, List.length_drop, size]
  decide

theorem last_copy (size : b.length = MAXSTRINGSZ) (v : Block) :
    (padded v (MAXSTRINGSZ - 1) ++ b.drop (MAXSTRINGSZ - 1))[MAXSTRINGSZ - 1]? =
      b[MAXSTRINGSZ - 1]? := by
  obtain ⟨c, rest, last⟩ := drop_eq_last size
  rw [rest, last, List.getElem?_append_right (by rw [length_padded]), length_padded, Nat.sub_self]
  rfl

/-- A copy is a terminated string exactly where the value does not fill the limit or the buffer
ends with a NUL. -/
theorem shows_copy_iff (size : b.length = MAXSTRINGSZ) (plain : 0 ∉ v) :
    Shows v (some (padded v (MAXSTRINGSZ - 1) ++ b.drop (MAXSTRINGSZ - 1))) ↔
      v.length < MAXSTRINGSZ - 1 ∨ b[MAXSTRINGSZ - 1]? = some 0 := by
  obtain ⟨c, rest, last⟩ := drop_eq_last size
  rw [rest, last]
  by_cases short : v.length < MAXSTRINGSZ - 1
  · refine iff_of_true ⟨_, rfl, ?_, ?_⟩ (.inl short)
    · rw [padded_of_lt short]
      simp
    · rw [cString_padded_of_lt plain short, List.take_of_length_le short.le]
  · have long : MAXSTRINGSZ - 1 ≤ v.length := not_lt.mp short
    have cut : 0 ∉ v.take (MAXSTRINGSZ - 1) := fun mem => plain (List.mem_of_mem_take mem)
    constructor
    · rintro ⟨b', same, nul, -⟩
      cases same
      rw [padded_of_le long] at nul
      obtain inValue | atEnd := List.mem_append.mp nul
      · exact absurd inValue cut
      · exact .inr (by rw [List.mem_singleton.mp atEnd])
    · rintro (short' | zero)
      · exact absurd short' short
      · cases zero
        refine ⟨_, rfl, by simp, ?_⟩
        rw [cString_padded_of_le plain long, cString_nul, List.append_nil]

end Copy

/-! ## Sequences of lookups -/

/-- Both buffers have their size, and the static one ends with a NUL. -/
structure Inv (s : Buffers) : Prop where
  size : s.envbufM.length = MAXSTRINGSZ
  last : s.envbufM[MAXSTRINGSZ - 1]? = some 0
  thread : ∀ b, s.envbuf = some b → b.length = MAXSTRINGSZ

namespace Inv

variable {s s' : Buffers} {environ : Environ} {name : CStr} {raw : Block}

theorem init : Inv .init where
  size := List.length_replicate
  last := List.getElem?_replicate_of_lt (by decide)
  thread := by simp [Buffers.init]

theorem getenvM_none (missing : value name environ = none) :
    s.getenvM environ name = .ok (none, s) := by
  rw [Buffers.getenvM, findEntry_eq, missing]
  rfl

theorem getenvM_some (inv : Inv s) {v : Block} (found : value name environ = some v) :
    ∃ b, b = padded v (MAXSTRINGSZ - 1) ++ s.envbufM.drop (MAXSTRINGSZ - 1) ∧
      s.getenvM environ name = .ok (some b, ⟨b, s.envbuf⟩) := by
  refine ⟨_, rfl, ?_⟩
  rw [Buffers.getenvM, findEntry_eq, found]
  simp only [Option.map_some, ok_bind, List.drop_one, List.tail_cons, copy_eq inv.size]
  rfl

/-- The buffer that `getenv_r_m2` works with. -/
theorem thread_or (inv : Inv s) {malloc : Option Block} {b : Block}
    (size : ∀ b, malloc = some b → b.length = MAXSTRINGSZ) (buffer : s.envbuf.or malloc = some b) :
    b.length = MAXSTRINGSZ := by
  cases own : s.envbuf with
  | none =>
      rw [own] at buffer
      exact size b buffer
  | some b' =>
      rw [own] at buffer
      cases buffer
      exact inv.thread _ own

theorem getenvRM2_none {malloc : Option Block} {b : Block} (buffer : s.envbuf.or malloc = some b)
    (missing : value name environ = none) :
    s.getenvRM2 environ name malloc = .ok (none, ⟨s.envbufM, some b⟩) := by
  rw [Buffers.getenvRM2, buffer]
  simp only [findEntry_eq, missing]
  rfl

theorem getenvRM2_some {malloc : Option Block} {b v : Block} (size : b.length = MAXSTRINGSZ)
    (buffer : s.envbuf.or malloc = some b) (found : value name environ = some v) :
    ∃ b', b' = padded v (MAXSTRINGSZ - 1) ++ b.drop (MAXSTRINGSZ - 1) ∧
      s.getenvRM2 environ name malloc = .ok (some b', ⟨s.envbufM, some b'⟩) := by
  refine ⟨_, rfl, ?_⟩
  rw [Buffers.getenvRM2, buffer]
  simp only [findEntry_eq, found, Option.map_some, ok_bind, List.drop_one, List.tail_cons,
    copy_eq size]
  rfl

theorem step {act : Lookup} (inv : Inv s) (hstep : Step s act s') : Inv s' := by
  obtain ⟨enabled, run⟩ := hstep
  cases act with
  | getenvM environ name =>
      cases found : value name environ with
      | none =>
          rw [Buffers.run, getenvM_none found] at run
          cases run
          exact inv
      | some v =>
          obtain ⟨b, rfl, call⟩ := inv.getenvM_some found
          rw [Buffers.run, call] at run
          cases run
          exact ⟨length_copy inv.size v, (last_copy inv.size v).trans inv.last, inv.thread⟩
  | getenvRM2 environ name malloc =>
      cases buffer : s.envbuf.or malloc with
      | none =>
          rw [Buffers.run, Buffers.getenvRM2, buffer] at run
          cases run
          exact inv
      | some b =>
          have size := inv.thread_or enabled buffer
          cases found : value name environ with
          | none =>
              rw [Buffers.run, getenvRM2_none buffer found] at run
              cases run
              refine ⟨inv.size, inv.last, fun b' same => ?_⟩
              cases same
              exact size
          | some v =>
              obtain ⟨b', rfl, call⟩ := getenvRM2_some size buffer found
              rw [Buffers.run, call] at run
              cases run
              refine ⟨inv.size, inv.last, fun b' same => ?_⟩
              cases same
              exact length_copy size v

/-- One lookup of each kind, from a state with good buffers. -/
theorem agree_iff (inv : Inv s) (environ : Environ) (name : CStr)
    (size : raw.length = MAXSTRINGSZ) :
    ∃ left s₁ right s₂, s.getenvM environ name = .ok (left, s₁) ∧
      s.getenvRM2 environ name (some raw) = .ok (right, s₂) ∧
      (Agree environ name left right ↔ ∀ v, value name environ = some v →
        v.length < MAXSTRINGSZ - 1 ∨ (s.envbuf.getD raw)[MAXSTRINGSZ - 1]? = some 0) := by
  have buffer : s.envbuf.or (some raw) = some (s.envbuf.getD raw) := by
    cases s.envbuf <;> rfl
  have size' : (s.envbuf.getD raw).length = MAXSTRINGSZ := by
    refine inv.thread_or (fun b same => ?_) buffer
    cases same
    exact size
  cases found : value name environ with
  | none =>
      refine ⟨_, _, _, _, getenvM_none found, getenvRM2_none buffer found, ?_⟩
      simp [Agree, found]
  | some v =>
      have plain := value_plain found
      obtain ⟨b₁, rfl, call₁⟩ := inv.getenvM_some found
      obtain ⟨b₂, rfl, call₂⟩ := getenvRM2_some size' buffer found
      refine ⟨_, _, _, _, call₁, call₂, ?_⟩
      have left := (shows_copy_iff inv.size plain).mpr (.inr inv.last)
      rw [Agree, found]
      simp only [left, true_and, shows_copy_iff size' plain, Option.some.injEq, forall_eq']

end Inv

/-- After any lookups of the thread, `getenv_m` and `getenv_r_m2` agree exactly where the value
is shorter than 4095 bytes or the buffer of the thread ends with a NUL. -/
theorem getenv_agree_iff {s : Buffers} (h : Reachable Step .init s) (environ : Environ)
    (name : CStr) {raw : Block} (size : raw.length = MAXSTRINGSZ) :
    ∃ left s₁ right s₂, s.getenvM environ name = .ok (left, s₁) ∧
      s.getenvRM2 environ name (some raw) = .ok (right, s₂) ∧
      (Agree environ name left right ↔ ∀ v, value name environ = some v →
        v.length < MAXSTRINGSZ - 1 ∨ (s.envbuf.getD raw)[MAXSTRINGSZ - 1]? = some 0) :=
  (h.invariant .init fun _ _ _ inv hstep => Inv.step inv hstep).agree_iff environ name size

/-- The first lookup of a thread, for a value of one byte. -/
theorem getenv_agree_short :
    ∃ left s₁ right s₂,
      Buffers.init.getenvM [⟨[65, 61, 98], by decide⟩] ⟨[65], by decide⟩ = .ok (left, s₁) ∧
      Buffers.init.getenvRM2 [⟨[65, 61, 98], by decide⟩] ⟨[65], by decide⟩
        (some (List.replicate MAXSTRINGSZ 7)) = .ok (right, s₂) ∧
      Agree [⟨[65, 61, 98], by decide⟩] ⟨[65], by decide⟩ left right := by
  obtain ⟨left, s₁, right, s₂, call₁, call₂, agree⟩ := getenv_agree_iff ⟨[], .nil Buffers.init⟩
    [⟨[65, 61, 98], by decide⟩] ⟨[65], by decide⟩
    List.length_replicate
  refine ⟨left, s₁, right, s₂, call₁, call₂, agree.mpr ?_⟩
  intro v found
  cases found
  exact .inl (by decide)

/-- A value of 4095 bytes, and memory with a byte other than NUL at its end. -/
theorem getenv_unterminated :
    ∃ (entry : CStr) (left right : Option Block) (s₁ s₂ : Buffers),
      entry.bytes = [65, 61] ++ List.replicate (MAXSTRINGSZ - 1) 120 ∧
      Buffers.init.getenvM [entry] ⟨[65], by decide⟩ = .ok (left, s₁) ∧
      Buffers.init.getenvRM2 [entry] ⟨[65], by decide⟩ (some (List.replicate MAXSTRINGSZ 7)) =
        .ok (right, s₂) ∧
      ¬ Agree [entry] ⟨[65], by decide⟩ left right := by
  let entry : CStr := ⟨[65, 61] ++ List.replicate (MAXSTRINGSZ - 1) 120, by simp⟩
  have isEntry : IsEntry ⟨[65], by decide⟩ entry := List.prefix_append _ _
  have found : value ⟨[65], by decide⟩ [entry] = some (List.replicate (MAXSTRINGSZ - 1) 120) :=
    value_cons isEntry []
  obtain ⟨left, s₁, right, s₂, call₁, call₂, agree⟩ := Inv.init.agree_iff [entry]
    ⟨[65], by decide⟩ List.length_replicate
  refine ⟨entry, left, right, s₁, s₂, rfl, call₁, call₂, ?_⟩
  intro h
  obtain short | last := agree.mp h _ found
  · rw [List.length_replicate] at short
    exact absurd short (lt_irrefl _)
  · have other : (List.replicate MAXSTRINGSZ (7 : UInt8))[MAXSTRINGSZ - 1]? = some 7 :=
      List.getElem?_replicate_of_lt (by decide)
    cases other.symm.trans last

end UnixProgramming.Getenv
