import UnixProgramming.Library.CMemory
import UnixProgramming.Library.Fallible
import Mathlib.Data.Int.Order.Basic

/-!
# `mmap_io_test` of `io_test.c`

The program copies a file window by window, through two mappings with the same offset. The offset
is in `fsz`, to which nothing is assigned before the loop tests it. All calls of the system
succeed; an access through a mapping that is not inside of its file is a fault.
-/

namespace UnixProgramming.MmapCopy

open CMemory Fallible

def COPYINCR : Int := 1024 * 1024 * 1024

structure Window where
  offset : Int
  length : Int
  deriving DecidableEq

namespace Window

def Inside (w : Window) (file : Block) : Prop :=
  0 ≤ w.offset ∧ w.offset + w.length ≤ file.length

instance (w : Window) (file : Block) : Decidable (w.Inside file) :=
  inferInstanceAs (Decidable (0 ≤ w.offset ∧ w.offset + w.length ≤ file.length))

/-- The bytes of the mapping. The error is a window that is not inside of its file. -/
def load (w : Window) (file : Block) : Except Window Block :=
  if w.Inside file then .ok ((file.drop w.offset.toNat).take w.length.toNat) else .error w

/-- The file with other bytes in the mapping. -/
def store (w : Window) (file bytes : Block) : Except Window Block :=
  if w.Inside file then
    .ok (file.take w.offset.toNat ++ bytes ++ file.drop (w.offset.toNat + w.length.toNat))
  else .error w

end Window

/-- The output file, and the windows that were mapped in both files. -/
structure Copied where
  fdout : Block
  windows : List Window
  deriving DecidableEq

/-- `copysz`, with `rest` bytes to copy. -/
def copysz (rest : Int) : Int := if rest > COPYINCR then COPYINCR else rest

theorem copysz_pos {rest : Int} (some : 0 < rest) : 0 < copysz rest := by
  rw [copysz]
  split
  · decide
  · exact some

theorem copysz_le (rest : Int) : copysz rest ≤ rest := by
  rw [copysz]
  split
  · omega
  · exact Int.le_refl rest

/-- The loop, for an input file of `size` bytes. -/
def copyLoop (fdin : Block) (size fsz : Int) (fdout : Block) : Except Window Copied :=
  if _ : fsz < size then do
    let w : Window := ⟨fsz, copysz (size - fsz)⟩
    let src ← w.load fdin
    let fdout ← w.store fdout src
    let r ← copyLoop fdin size (fsz + copysz (size - fsz)) fdout
    return ⟨r.fdout, w :: r.windows⟩
  else return ⟨fdout, []⟩
termination_by (size - fsz).toNat
decreasing_by
  have := copysz_pos (by omega : 0 < size - fsz)
  omega

/-- `fsz` is what the variable holds at the start. `ftruncate` has made an empty file as long as
the input. -/
def mmapIoTest (fdin : Block) (fsz : Int) : Except Window Copied :=
  copyLoop fdin fdin.length fsz (List.replicate fdin.length 0)

/-! ## Full copies -/

/-- Every window is inside of both files and starts at a multiple of `COPYINCR`, and the output
is the input. -/
structure CopyRight (fdin : Block) (r : Copied) : Prop where
  positive : ∀ w ∈ r.windows, 0 < w.length
  inside : ∀ w ∈ r.windows, w.Inside fdin ∧ w.Inside r.fdout
  aligned : ∀ w ∈ r.windows, COPYINCR ∣ w.offset
  copy : r.fdout = fdin

/-- What the loop does from an offset in the file or behind it: it leaves what is in front of the
offset as it is. -/
structure Copies (fdin : Block) (fsz : Nat) (fdout : Block) (r : Copied) : Prop where
  out : r.fdout = fdout.take fsz ++ fdin.drop fsz
  positive : ∀ w ∈ r.windows, 0 < w.length
  inside : ∀ w ∈ r.windows, w.Inside fdin
  first : fsz < fdin.length → ∃ w ∈ r.windows, w.offset = fsz
  aligned : COPYINCR ∣ fsz → ∀ w ∈ r.windows, COPYINCR ∣ w.offset

theorem copyLoop_done {fdin fdout : Block} {size fsz : Int} (done : size ≤ fsz) :
    copyLoop fdin size fsz fdout = .ok ⟨fdout, []⟩ := by
  rw [copyLoop, dif_neg (Int.not_lt.mpr done)]
  rfl

/-- One window of the copy. -/
theorem copyLoop_window {fdin fdout : Block} {fsz n : Nat} (size : fdout.length = fdin.length)
    (count : copysz (fdin.length - fsz) = n) (more : fsz < fdin.length)
    (fits : fsz + n ≤ fdin.length) :
    copyLoop fdin fdin.length fsz fdout =
      copyLoop fdin fdin.length (fsz + n : Nat)
        (fdout.take fsz ++ (fdin.drop fsz).take n ++ fdout.drop (fsz + n)) >>= fun r =>
          .ok ⟨r.fdout, ⟨fsz, n⟩ :: r.windows⟩ := by
  have inside : Window.Inside ⟨fsz, n⟩ fdin := by
    simp only [Window.Inside]
    omega
  have inside' : Window.Inside ⟨fsz, n⟩ fdout := by
    simp only [Window.Inside]
    omega
  rw [copyLoop, dif_pos (by omega), count]
  simp only [Window.load, Window.store, if_pos inside, if_pos inside', ok_bind, Int.toNat_natCast]
  rfl

/-- One window and what the rest of the loop copies behind it. -/
theorem Copies.cons {fdin fdout : Block} {fsz n : Nat} {r : Copied}
    (size : fdout.length = fdin.length) (count : copysz (fdin.length - fsz) = n)
    (more : fsz < fdin.length) (fits : fsz + n ≤ fdin.length)
    (spec : Copies fdin (fsz + n)
      (fdout.take fsz ++ (fdin.drop fsz).take n ++ fdout.drop (fsz + n)) r)
    (last : fdin.length ≤ fsz + n → r.windows = []) :
    Copies fdin fsz fdout ⟨r.fdout, ⟨fsz, n⟩ :: r.windows⟩ where
  out := by
    have front : (fdout.take fsz ++ (fdin.drop fsz).take n).length = fsz + n := by
      simp
      omega
    dsimp only
    rw [spec.out, List.take_left' front, List.append_assoc, ← List.drop_drop,
      List.take_append_drop]
  positive := by
    intro w mem
    obtain rfl | later := List.mem_cons.mp mem
    · rw [← count]
      exact copysz_pos (by omega)
    · exact spec.positive w later
  inside := by
    intro w mem
    obtain rfl | later := List.mem_cons.mp mem
    · simp only [Window.Inside]
      omega
    · exact spec.inside w later
  first := fun _ => ⟨_, List.mem_cons_self, rfl⟩
  aligned := by
    intro aligned w mem
    obtain rfl | later := List.mem_cons.mp mem
    · exact aligned
    · by_cases full : (fdin.length : Int) - fsz > COPYINCR
      · rw [copysz, if_pos full] at count
        refine spec.aligned ?_ w later
        rw [Int.natCast_add, ← count]
        exact Int.dvd_add aligned (Int.dvd_refl COPYINCR)
      · -- the last window ends with the file
        rw [copysz, if_neg full] at count
        rw [last (by omega)] at later
        cases later

theorem copyLoop_spec {fdin fdout : Block} (size : fdout.length = fdin.length) (fsz : Nat) :
    ∃ r, copyLoop fdin fdin.length fsz fdout = .ok r ∧ Copies fdin fsz fdout r := by
  by_cases more : fsz < fdin.length
  · obtain ⟨n, count⟩ := Int.eq_ofNat_of_zero_le
      (copysz_pos (by omega : 0 < (fdin.length : Int) - fsz)).le
    have some := copysz_pos (by omega : 0 < (fdin.length : Int) - fsz)
    have fits := copysz_le ((fdin.length : Int) - fsz)
    have fits' : fsz + n ≤ fdin.length := by omega
    have size' : (fdout.take fsz ++ (fdin.drop fsz).take n ++ fdout.drop (fsz + n)).length =
        fdin.length := by
      simp
      omega
    obtain ⟨r, run, spec⟩ := copyLoop_spec size' (fsz + n)
    rw [copyLoop_window size count more fits', run, ok_bind]
    refine ⟨_, rfl, .cons size count more fits' spec ?_⟩
    intro last
    rw [copyLoop_done (by exact_mod_cast last)] at run
    cases run
    rfl
  · rw [copyLoop_done (by omega)]
    refine ⟨_, rfl, ?_, by simp, by simp, fun less => absurd less more, by simp⟩
    rw [List.take_of_length_le (by omega), List.drop_eq_nil_of_le (by omega), List.append_nil]
termination_by fdin.length - fsz
decreasing_by omega

theorem mmapIoTest_negative {fsz : Int} (negative : fsz < 0) (fdin : Block) :
    ∃ w, mmapIoTest fdin fsz = .error w := by
  have outside : ¬ Window.Inside ⟨fsz, copysz (fdin.length - fsz)⟩ fdin :=
    fun inside => absurd inside.1 (Int.not_le.mpr negative)
  refine ⟨⟨fsz, copysz (fdin.length - fsz)⟩, ?_⟩
  rw [mmapIoTest, copyLoop, dif_pos (by omega)]
  simp only [Window.load, if_neg outside, error_bind]

/-- The zeros of `ftruncate` in front of the rest of the input are the input exactly where it
begins with as many zeros. -/
theorem zeros_append_drop_iff {fdin : Block} (k : Nat) :
    (List.replicate fdin.length 0).take k ++ fdin.drop k = fdin ↔ ∀ b ∈ fdin.take k, b = 0 := by
  have zeros : (List.replicate fdin.length (0 : UInt8)).take k =
      List.replicate (fdin.take k).length 0 := by
    rw [List.take_replicate, List.length_take]
  constructor
  · intro same
    have front := List.append_cancel_right (same.trans (List.take_append_drop k fdin).symm)
    rw [zeros] at front
    intro b mem
    rw [← front] at mem
    exact List.eq_of_mem_replicate mem
  · intro allZero
    rw [zeros, ← List.eq_replicate_of_mem allZero, List.take_append_drop]

/-- The copy is complete exactly where `fsz` starts at or behind the start of the file, at a
multiple of `COPYINCR` if it is in the file, and behind zeros only. -/
theorem mmapIoTest_right_iff (fdin : Block) (fsz : Int) :
    (∃ r, mmapIoTest fdin fsz = .ok r ∧ CopyRight fdin r) ↔
      0 ≤ fsz ∧ (fsz < fdin.length → COPYINCR ∣ fsz) ∧ ∀ b ∈ fdin.take fsz.toNat, b = 0 := by
  by_cases negative : fsz < 0
  · obtain ⟨w, fault⟩ := mmapIoTest_negative negative fdin
    refine iff_of_false ?_ fun h => absurd h.1 (Int.not_le.mpr negative)
    rintro ⟨r, run, -⟩
    rw [fault] at run
    cases run
  · obtain ⟨k, rfl⟩ := Int.eq_ofNat_of_zero_le (Int.not_lt.mp negative)
    obtain ⟨r, run, spec⟩ := copyLoop_spec
      (List.length_replicate : (List.replicate fdin.length (0 : UInt8)).length = _) k
    rw [Int.toNat_natCast, ← zeros_append_drop_iff, ← spec.out]
    constructor
    · rintro ⟨r', run', right⟩
      rw [mmapIoTest, run] at run'
      cases run'
      refine ⟨Int.natCast_nonneg k, fun less => ?_, right.copy⟩
      obtain ⟨w, mem, offset⟩ := spec.first (Int.ofNat_lt.mp less)
      rw [← offset]
      exact right.aligned w mem
    · rintro ⟨-, aligned, copy⟩
      refine ⟨r, run, spec.positive, fun w mem => ⟨spec.inside w mem, ?_⟩, ?_, copy⟩
      · rw [copy]
        exact spec.inside w mem
      · by_cases less : (k : Int) < fdin.length
        · exact spec.aligned (aligned less)
        · rw [copyLoop_done (Int.not_lt.mp less)] at run
          cases run
          simp

/-- A file of two bytes, and 2 in the variable: nothing is copied. -/
theorem mmapIoTest_copies_nothing :
    mmapIoTest [104, 105] 2 = .ok ⟨[0, 0], []⟩ ∧
      ¬ ∃ r, mmapIoTest [104, 105] 2 = .ok r ∧ CopyRight [104, 105] r := by
  have run : mmapIoTest [104, 105] 2 = .ok ⟨[0, 0], []⟩ := copyLoop_done (by decide)
  refine ⟨run, ?_⟩
  rintro ⟨r, run', right⟩
  rw [run] at run'
  cases run'
  exact absurd right.copy (by decide)

end UnixProgramming.MmapCopy
