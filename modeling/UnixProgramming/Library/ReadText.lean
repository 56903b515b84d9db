import Mathlib.Order.Defs.LinearOrder
import UnixProgramming.Library.CString
import UnixProgramming.Library.Fallible

/-!
# Bytes that are read as a string

Bytes are put at the start of an array, and a NUL is put behind them. It has to fit in too.
-/

namespace CMemory

open Fallible

/-- `n = read(fd, buf, size); buf[n] = 0;`, for the bytes that the call returns. -/
def readText (buf bytes : Block) : Except Fault Block := do
  let buf ← storeRange buf 0 bytes
  store buf bytes.length 0

variable {buf bytes : Block}

/-- There is room for the bytes and a NUL. -/
theorem readText_eq (short : bytes.length < buf.length) :
    ∃ back, readText buf bytes = .ok (bytes ++ 0 :: back) ∧
      (bytes ++ 0 :: back).length = buf.length := by
  obtain ⟨old, back, rest⟩ : ∃ old back, buf.drop bytes.length = old :: back :=
    ⟨_, _, List.drop_eq_getElem_cons short⟩
  have filled : fill buf bytes = bytes ++ old :: back := by rw [fill, rest]
  have total : (fill buf bytes).length = buf.length := length_fill short.le
  rw [readText, storeRange_zero short.le, ok_bind, filled, store_append_cons]
  refine ⟨back, rfl, ?_⟩
  rw [filled] at total
  simpa using total

theorem readText_short (short : bytes.length < buf.length) :
    ∃ buf', readText buf bytes = .ok buf' ∧ buf'.length = buf.length ∧
      cString buf' = cString bytes := by
  obtain ⟨back, read, total⟩ := readText_eq short
  exact ⟨_, read, total, cString_append_nul bytes back⟩

/-- Bytes without a NUL are read back as a string. -/
theorem readText_plain (short : bytes.length < buf.length) (plain : 0 ∉ bytes) :
    ∃ buf', readText buf bytes = .ok buf' ∧ buf'.length = buf.length ∧
      readString buf' = .ok bytes := by
  obtain ⟨back, read, total⟩ := readText_eq short
  exact ⟨_, read, total, readString_append_nul plain back⟩

theorem readText_long (long : buf.length ≤ bytes.length) :
    ∃ fault, readText buf bytes = .error fault := by
  obtain fits | beyond := le_or_gt bytes.length buf.length
  · have total := length_fill fits
    rw [readText, storeRange_zero fits, ok_bind, store, if_neg (by omega)]
    exact ⟨_, rfl⟩
  · rw [readText, storeRange, if_neg (by omega)]
    exact ⟨_, rfl⟩

end CMemory
