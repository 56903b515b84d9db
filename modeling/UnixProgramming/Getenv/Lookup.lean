import UnixProgramming.Library.CString
import UnixProgramming.Library.Fallible

/-!
# `getenv_r_m` of `thread_test.c`

The versions of `getenv` in `thread_test.c` and `getenv_test.c` have one loop over `environ` in
common: it stops at the first entry that has the name in front of an equals sign. `getenv_r_m`
copies from there into the caller's buffer. Its length check lets a value through that is as long
as the buffer, and the copy starts at the equals sign. The length of a name fits into an `int`.
-/

namespace UnixProgramming.Getenv

open CMemory Fallible

abbrev Environ := List CStr

/-- The character between a name and its value. -/
def equals : UInt8 := 61

def ENOENT : Int := 2

def ENOSPC : Int := 28

/-- The loop over `environ`: what stands at `&environ[i][len]` in the entry where it stops. -/
def findEntry (name : CStr) : Environ → Except Fault (Option Block)
  | [] => return none
  | entry :: environ =>
      let len := name.bytes.length
      if strncmp len name.bytes entry.bytes = 0 then do
        let c ← load (entry.bytes ++ [0]) len
        if c = equals then return some (entry.bytes.drop len) else findEntry name environ
      else findEntry name environ

/-- `getenv_r_m`: its value and the caller's buffer. -/
def getenvRM (environ : Environ) (name : CStr) (buf : Block) (buflen : Nat) :
    Except Fault (Int × Block) := do
  match ← findEntry name environ with
  | none => return (ENOENT, buf)
  | some entry =>
      let olen := toInt (entry.drop 1).length
      if olen > buflen then return (ENOSPC, buf)
      else
        -- the copy starts at `environ[i][len]`
        let buf ← strncpy buf 0 entry buflen
        return (0, buf)

/-! ## The first entry with a name -/

/-- An entry of the form `name=...`. -/
def IsEntry (name entry : CStr) : Prop := name.bytes ++ [equals] <+: entry.bytes

instance (name entry : CStr) : Decidable (IsEntry name entry) :=
  inferInstanceAs (Decidable (name.bytes ++ [equals] <+: entry.bytes))

/-- The value in the first entry of the form `name=...`. -/
def value (name : CStr) (environ : Environ) : Option Block :=
  (environ.find? fun entry => IsEntry name entry).map (·.bytes.drop (name.bytes.length + 1))

theorem value_cons {name entry : CStr} (h : IsEntry name entry) (environ : Environ) :
    value name (entry :: environ) = some (entry.bytes.drop (name.bytes.length + 1)) := by
  simp [value, h]

theorem value_plain {name : CStr} {environ : Environ} {v : Block}
    (h : value name environ = some v) : 0 ∉ v := by
  obtain ⟨entry, -, rfl⟩ := Option.map_eq_some_iff.mp h
  exact fun mem => entry.plain (List.mem_of_mem_drop mem)

/-- The test of the loop. -/
theorem isEntry_iff {name entry : CStr} :
    IsEntry name entry ↔ strncmp name.bytes.length name.bytes entry.bytes = 0 ∧
      load (entry.bytes ++ [0]) name.bytes.length = .ok equals := by
  rw [strncmp_eq_zero_iff name.plain]
  constructor
  · rintro ⟨rest, split⟩
    rw [← split, List.append_assoc, List.append_assoc]
    exact ⟨List.prefix_append _ _, load_append_cons name.bytes _ equals⟩
  · rintro ⟨⟨rest, split⟩, loaded⟩
    rw [← split, List.append_assoc, load, List.getElem?_append_right le_rfl, Nat.sub_self] at loaded
    cases rest with
    | nil => cases loaded
    | cons c rest =>
        obtain rfl : c = equals := Except.ok.inj loaded
        exact ⟨rest, by rw [← split, List.append_assoc, List.singleton_append]⟩

/-- What stands behind the name in one of its entries. -/
theorem IsEntry.drop_eq {name entry : CStr} (h : IsEntry name entry) :
    entry.bytes.drop name.bytes.length =
      equals :: entry.bytes.drop (name.bytes.length + 1) := by
  obtain ⟨rest, split⟩ := h
  rw [← split, List.append_assoc, List.drop_left, ← List.drop_drop, List.drop_left]
  rfl

/-- The loop stays inside of the entries, and it stops at the equals sign of the first one with
the name. -/
theorem findEntry_eq (name : CStr) (environ : Environ) :
    findEntry name environ = .ok ((value name environ).map (equals :: ·)) := by
  induction environ with
  | nil => rfl
  | cons entry environ ih =>
      rw [findEntry]
      by_cases h : IsEntry name entry
      · obtain ⟨same, loaded⟩ := isEntry_iff.mp h
        simp [same, loaded, value_cons h, h.drop_eq]
      · have later : value name (entry :: environ) = value name environ := by simp [value, h]
        rw [later, ← ih]
        by_cases same : strncmp name.bytes.length name.bytes entry.bytes = 0
        · have inside : name.bytes.length < (entry.bytes ++ [0]).length := by
            have := ((strncmp_eq_zero_iff name.plain).mp same).length_le
            rw [List.length_append, List.length_singleton]
            omega
          have loaded : load (entry.bytes ++ [0]) name.bytes.length =
              .ok (entry.bytes ++ [0])[name.bytes.length] :=
            load_eq (List.getElem?_eq_getElem inside)
          have differ : (entry.bytes ++ [0])[name.bytes.length] ≠ equals := by
            intro eq
            rw [eq] at loaded
            exact h (isEntry_iff.mpr ⟨same, loaded⟩)
          rw [if_pos same, loaded, ok_bind, if_neg differ]
        · rw [if_neg same]

/-! ## The contract of `getenv_r_m` -/

/-- The value and the buffer that a caller may expect, with nothing written behind `buflen`. -/
def Contract (environ : Environ) (name : CStr) (buf : Block) (buflen : Nat)
    (result : Int × Block) : Prop :=
  match value name environ with
  | none => result = (ENOENT, buf)
  | some v =>
      if buflen ≤ v.length then result = (ENOSPC, buf)
      else result.1 = 0 ∧ result.2.take (v.length + 1) = v ++ [0] ∧
        result.2.drop buflen = buf.drop buflen

variable {environ : Environ} {name : CStr} {buf : Block} {buflen : Nat}

theorem getenvRM_none (missing : value name environ = none) :
    getenvRM environ name buf buflen = .ok (ENOENT, buf) := by
  rw [getenvRM, findEntry_eq, missing]
  rfl

theorem getenvRM_long {v : Block} (found : value name environ = some v)
    (long : buflen < toInt v.length) : getenvRM environ name buf buflen = .ok (ENOSPC, buf) := by
  rw [getenvRM, findEntry_eq, found]
  exact if_pos long

/-- Every other value is copied with its equals sign. -/
theorem getenvRM_copied {v : Block} (found : value name environ = some v)
    (short : toInt v.length ≤ buflen) (room : buflen ≤ buf.length) :
    getenvRM environ name buf buflen =
      .ok (0, padded (equals :: v) buflen ++ buf.drop buflen) := by
  have notLong : ¬ toInt (List.drop 1 (equals :: v)).length > buflen :=
    Int.not_lt.mpr short
  rw [getenvRM, findEntry_eq, found]
  simp only [Option.map_some, ok_bind, if_neg notLong, strncpy_zero room]
  rfl

/-- A copy of an equals sign and the value does not begin like the value with its NUL. -/
theorem take_padded_ne {v : Block} (plain : 0 ∉ v) (short : v.length < buflen) (back : Block) :
    (padded (equals :: v) buflen ++ back).take (v.length + 1) ≠ v ++ [0] := by
  have fits : (equals :: v).length ≤ buflen := short
  have whole : (padded (equals :: v) buflen ++ back).take (v.length + 1) = equals :: v := by
    rw [padded_of_length_le fits, List.append_assoc]
    exact List.take_left' rfl
  rw [whole]
  intro same
  have nul : (0 : UInt8) ∈ equals :: v := by
    rw [same]
    simp
  obtain eq | mem := List.mem_cons.mp nul
  · exact absurd eq (by decide)
  · exact plain mem

/-- `getenv_r_m` keeps its contract exactly where it has nothing to copy. -/
theorem getenvRM_contract_iff (environ : Environ) (name : CStr) (room : buflen ≤ buf.length) :
    ∃ result, getenvRM environ name buf buflen = .ok result ∧
      (Contract environ name buf buflen result ↔
        ∀ v, value name environ = some v → buflen < toInt v.length) := by
  cases found : value name environ with
  | none => exact ⟨_, getenvRM_none found, by simp [Contract, found]⟩
  | some v =>
      by_cases long : buflen < toInt v.length
      · have longer : buflen ≤ v.length := by
          have := toInt_le v.length
          omega
        exact ⟨_, getenvRM_long found long, by simp [Contract, found, long, longer]⟩
      · refine ⟨_, getenvRM_copied found (Int.not_lt.mp long) room, ?_⟩
        refine iff_of_false ?_ fun h => long (h v rfl)
        rw [Contract, found]
        dsimp only
        split
        · intro same
          have zero : (0 : Int) = ENOSPC := congrArg Prod.fst same
          exact absurd zero (by decide)
        · rename_i fits
          rintro ⟨-, contents, -⟩
          exact take_padded_ne (value_plain found) (not_le.mp fits) _ contents

/-- A value that is longer than the buffer. -/
theorem getenvRM_contract_long :
    ∃ result, getenvRM [⟨[65, 61, 98, 99], by decide⟩] ⟨[65], by decide⟩ [7] 1 = .ok result ∧
      Contract [⟨[65, 61, 98, 99], by decide⟩] ⟨[65], by decide⟩ [7] 1 result := by
  have room : 1 ≤ ([7] : Block).length := le_rfl
  obtain ⟨result, call, right⟩ := getenvRM_contract_iff
    [⟨[65, 61, 98, 99], by decide⟩] ⟨[65], by decide⟩ room
  refine ⟨result, call, right.mpr ?_⟩
  intro v found
  cases found
  decide

/-- `A=b` is found for `A`, and what the caller gets is `=b`. -/
theorem getenvRM_copies_equals :
    getenvRM [⟨[65, 61, 98], by decide⟩] ⟨[65], by decide⟩ [7, 7, 7, 7] 4 =
        .ok (0, [61, 98, 0, 0]) ∧
      ¬ Contract [⟨[65, 61, 98], by decide⟩] ⟨[65], by decide⟩ [7, 7, 7, 7] 4
        (0, [61, 98, 0, 0]) := by
  refine ⟨rfl, ?_⟩
  rintro ⟨-, contents, -⟩
  exact absurd contents (by decide)

end UnixProgramming.Getenv
