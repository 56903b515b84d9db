import UnixProgramming.Ttyname.Plan

/-!
# The buffer `pathname`

What `strcpy`, `strcat` and `strncpy` leave in the buffer, and the string that is read from it.
-/

namespace UnixProgramming.Ttyname

open CMemory Fallible
open Ftw (slash)

/-- The buffer, with the byte that stands behind the range of `strncpy`. -/
structure Buffer (clear : Bool) (b : Block) : Prop where
  size : b.length = PATHNAME_SIZE
  slot : b[POSIX_PATH_MAX]? = some (if clear then 0 else slash)

section Directory

variable {clear : Bool} {b dir : Block}

/-- `strcpy` of the name of a directory. -/
theorem Buffer.strcpy (buf : Buffer clear b) (short : dir.length ≤ POSIX_PATH_MAX) :
    ∃ rest, storeRange b 0 (dir ++ [0]) = .ok (dir ++ 0 :: rest) ∧
      Buffer (if dir.length = POSIX_PATH_MAX then true else clear) (dir ++ 0 :: rest) := by
  have size := buf.size
  simp only [PATHNAME_SIZE] at size
  have fits : (dir ++ [(0 : UInt8)]).length ≤ b.length := by
    rw [List.length_append, List.length_singleton]
    omega
  have length : (dir ++ 0 :: b.drop (dir.length + 1)).length = b.length := by
    simp only [List.length_append, List.length_cons, List.length_drop]
    omega
  refine ⟨b.drop (dir.length + 1), ?_, length.trans buf.size, ?_⟩
  · rw [storeRange_zero fits, fill]
    simp
  · by_cases full : dir.length = POSIX_PATH_MAX
    · rw [if_pos full, ← full, List.getElem?_append_right le_rfl]
      simp
    · rw [if_neg full, ← buf.slot, List.getElem?_append_right short]
      obtain ⟨k, behind⟩ : ∃ k, POSIX_PATH_MAX - dir.length = k + 1 :=
        ⟨POSIX_PATH_MAX - dir.length - 1, by omega⟩
      rw [behind, List.getElem?_cons_succ, List.getElem?_drop]
      congr 1
      omega

/-- `strcat` of the slash. -/
theorem Buffer.strcat {rest : Block} (buf : Buffer clear (dir ++ 0 :: rest))
    (short : dir.length ≤ POSIX_PATH_MAX) :
    ∃ rest', storeRange (dir ++ 0 :: rest) dir.length [slash, 0] =
        .ok (dir ++ slash :: 0 :: rest') ∧
      Buffer (if dir.length = POSIX_PATH_MAX then false
        else if dir.length + 1 = POSIX_PATH_MAX then true else clear)
        (dir ++ slash :: 0 :: rest') := by
  have size := buf.size
  have slot := buf.slot
  cases rest with
  | nil =>
      simp only [List.length_append, List.length_cons, List.length_nil, PATHNAME_SIZE] at size
      omega
  | cons c rest =>
      refine ⟨rest, ?_, ?_, ?_⟩
      · rw [storeRange_of_split rfl rfl (by simp)]
        simp
      · simpa using size
      · by_cases full : dir.length = POSIX_PATH_MAX
        · rw [if_pos full, ← full, List.getElem?_append_right le_rfl]
          simp
        · obtain ⟨k, behind⟩ : ∃ k, POSIX_PATH_MAX - dir.length = k + 1 :=
            ⟨POSIX_PATH_MAX - dir.length - 1, by omega⟩
          rw [if_neg full, List.getElem?_append_right short, behind, List.getElem?_cons_succ]
          rw [List.getElem?_append_right short, behind, List.getElem?_cons_succ] at slot
          cases k with
          | zero =>
              have last : dir.length + 1 = POSIX_PATH_MAX := by omega
              rw [if_pos last]
              rfl
          | succ k =>
              have notLast : dir.length + 1 ≠ POSIX_PATH_MAX := by omega
              rw [if_neg notLast, List.getElem?_cons_succ]
              exact slot

end Directory

/-! ## The path of an entry -/

theorem length_join (dir name : Block) : (join dir name).length = dir.length + 1 + name.length := by
  rw [join, List.length_append, List.length_cons]
  omega

theorem cutAt_isPrefix (limit : Option Nat) (path : Block) : cutAt limit path <+: path := by
  cases limit with
  | none => exact List.prefix_rfl
  | some limit => exact List.take_prefix limit path

/-- A limit that the buffer has room for does not cut off what the buffer can hold. -/
theorem cutAt_eq_take {limit : Option Nat} (wide : ∀ k ∈ limit, POSIX_PATH_MAX ≤ k) {path : Block}
    (short : (cutAt limit path).length ≤ POSIX_PATH_MAX) :
    cutAt limit path = path.take POSIX_PATH_MAX := by
  cases limit with
  | none => exact (List.take_of_length_le short).symm
  | some k =>
      have room := wide k rfl
      rw [cutAt] at short ⊢
      rw [← List.take_of_length_le short, List.take_take, min_eq_left room]

theorem le_length_cutAt {limit : Option Nat} (wide : ∀ k ∈ limit, POSIX_PATH_MAX ≤ k)
    {path : Block} (long : POSIX_PATH_MAX ≤ path.length) :
    POSIX_PATH_MAX ≤ (cutAt limit path).length := by
  cases limit with
  | none => exact long
  | some k =>
      rw [cutAt, List.length_take]
      exact le_min (wide k rfl) long

section Entry

variable {clear : Bool} {b dir name back : Block}

/-- `strncpy` of the name of an entry fills the buffer up to byte 256. -/
theorem Buffer.strncpy (name : Block) (buf : Buffer clear b) (split : b = dir ++ slash :: back)
    (inside : dir.length < POSIX_PATH_MAX) :
    ∃ b', CMemory.strncpy b (dir.length + 1) name (POSIX_PATH_MAX - (dir.length + 1)) = .ok b' ∧
      b' = dir ++ slash :: (padded name (POSIX_PATH_MAX - (dir.length + 1)) ++
        b.drop POSIX_PATH_MAX) ∧ Buffer clear b' := by
  have size := buf.size
  simp only [PATHNAME_SIZE] at size
  have room : dir.length + 1 + (POSIX_PATH_MAX - (dir.length + 1)) = POSIX_PATH_MAX := by omega
  have front : b.take (dir.length + 1) = dir ++ [slash] := by
    rw [split, List.take_append, List.take_of_length_le (by omega), Nat.add_sub_cancel_left]
    rfl
  refine ⟨_, ?_, rfl, ?_, ?_⟩
  · rw [CMemory.strncpy, if_pos (by omega), room, front, List.append_assoc, List.append_assoc]
    rfl
  · simp only [List.length_append, List.length_cons, length_padded, List.length_drop,
      PATHNAME_SIZE]
    omega
  · rw [← buf.slot, List.getElem?_append_right inside.le]
    obtain ⟨k, behind⟩ : ∃ k, POSIX_PATH_MAX - dir.length = k + 1 :=
      ⟨POSIX_PATH_MAX - dir.length - 1, by omega⟩
    rw [behind, List.getElem?_cons_succ, List.getElem?_append_right (by rw [length_padded]; omega),
      length_padded, List.getElem?_drop]
    congr 1
    omega

/-- The byte behind the range of `strncpy` and what follows. -/
theorem Buffer.drop (buf : Buffer clear b) :
    ∃ rest, b.drop POSIX_PATH_MAX = (if clear then 0 else slash) :: rest := by
  obtain ⟨inside, slot⟩ := List.getElem?_eq_some_iff.mp buf.slot
  exact ⟨_, by rw [List.drop_eq_getElem_cons inside, slot]⟩

theorem join_eq_append (dir name : Block) (n : Nat) :
    join dir name = dir ++ slash :: name.take n ++ name.drop n := by
  rw [List.append_assoc, List.cons_append, List.take_append_drop, join]

theorem plain_join (plain : 0 ∉ dir) (plainName : 0 ∉ name) : 0 ∉ join dir name := by
  have nonzero : (0 : UInt8) ≠ slash := by decide
  simp [join, plain, plainName, nonzero]

/-- A path that is not cut off by `strncpy` and has a NUL. -/
theorem Buffer.read_fits {limit : Option Nat} {path : Block} (buf : Buffer clear b)
    (wide : ∀ k ∈ limit, POSIX_PATH_MAX ≤ k) (plain : 0 ∉ dir) (plainName : 0 ∉ name)
    (inside : dir.length < POSIX_PATH_MAX) (cut : path = cutAt limit (join dir name))
    (short : path.length ≤ POSIX_PATH_MAX) (last : path.length = POSIX_PATH_MAX → clear) :
    readString (dir ++ slash :: (padded name (POSIX_PATH_MAX - (dir.length + 1)) ++
      b.drop POSIX_PATH_MAX)) = .ok path := by
  have taken : path = (join dir name).take POSIX_PATH_MAX := by
    rw [cut] at short ⊢
    exact cutAt_eq_take wide short
  have plainPath : 0 ∉ path := by
    rw [taken]
    exact fun mem => plain_join plain plainName (List.mem_of_mem_take mem)
  by_cases fits : name.length < POSIX_PATH_MAX - (dir.length + 1)
  · have whole : path = dir ++ slash :: name := by
      rw [taken, join, List.take_of_length_le]
      rw [List.length_append, List.length_cons]
      omega
    rw [padded_of_lt fits]
    simpa [whole] using readString_append_nul plainPath _
  · rw [not_lt] at fits
    have front : (dir ++ slash :: name.take (POSIX_PATH_MAX - (dir.length + 1))).length =
        POSIX_PATH_MAX := by
      rw [List.length_append, List.length_cons, List.length_take_of_le fits]
      omega
    have whole : path = dir ++ slash :: name.take (POSIX_PATH_MAX - (dir.length + 1)) := by
      rw [taken, join_eq_append dir name (POSIX_PATH_MAX - (dir.length + 1)),
        List.take_left' front]
    obtain ⟨rest, behind⟩ := buf.drop
    rw [if_pos (last (whole ▸ front))] at behind
    rw [padded_of_le fits, behind]
    simpa [whole] using readString_append_nul plainPath rest

/-- Else the string is not the path. -/
theorem Buffer.read_misfit {limit : Option Nat} {path p : Block} (buf : Buffer clear b)
    (plain : 0 ∉ dir) (plainName : 0 ∉ name) (noSlash : slash ∉ name)
    (inside : dir.length < POSIX_PATH_MAX)
    (cut : path = cutAt limit (join dir name))
    (misfit : ¬ (path.length ≤ POSIX_PATH_MAX ∧ (path.length = POSIX_PATH_MAX → clear)))
    (read : readString (dir ++ slash :: (padded name (POSIX_PATH_MAX - (dir.length + 1)) ++
      b.drop POSIX_PATH_MAX)) = .ok p) :
    p ≠ path ∧ POSIX_PATH_MAX ≤ p.length := by
  have below : path <+: join dir name := cut ▸ cutAt_isPrefix limit _
  have long : POSIX_PATH_MAX ≤ path.length := by
    by_contra short
    exact misfit ⟨by omega, fun same => by omega⟩
  have fits : POSIX_PATH_MAX - (dir.length + 1) ≤ name.length := by
    have := below.length_le
    rw [length_join] at this
    omega
  have front : (dir ++ slash :: name.take (POSIX_PATH_MAX - (dir.length + 1))).length =
      POSIX_PATH_MAX := by
    rw [List.length_append, List.length_cons, List.length_take_of_le fits]
    omega
  have plainFront : 0 ∉ dir ++ slash :: name.take (POSIX_PATH_MAX - (dir.length + 1)) := by
    intro mem
    apply plain_join plain plainName
    rw [join_eq_append dir name (POSIX_PATH_MAX - (dir.length + 1))]
    exact List.mem_append_left _ mem
  obtain ⟨rest, behind⟩ := buf.drop
  have value : p = dir ++ slash :: name.take (POSIX_PATH_MAX - (dir.length + 1)) ++
      cString (b.drop POSIX_PATH_MAX) := by
    rw [readString] at read
    split at read
    · cases read
      rw [padded_of_le fits, ← cString_append plainFront]
      simp
    · cases read
  refine ⟨?_, by rw [value, List.length_append, front]; exact Nat.le_add_right _ _⟩
  rintro rfl
  cases clear with
  | true =>
      rw [if_pos rfl] at behind
      rw [behind, cString_nul, List.append_nil] at value
      exact misfit ⟨by rw [value, front], fun _ => rfl⟩
  | false =>
      -- the slash would be in the name
      rw [value, join_eq_append dir name (POSIX_PATH_MAX - (dir.length + 1)),
        List.prefix_append_right_inj, behind] at below
      have mem : slash ∈ cString (slash :: rest) := by simp [cString, slash]
      exact noSlash (List.mem_of_mem_drop (below.subset mem))

end Entry

end UnixProgramming.Ttyname
