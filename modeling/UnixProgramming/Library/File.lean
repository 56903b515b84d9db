import Mathlib.Data.List.Basic
import Mathlib.Tactic.Common

/-!
# Files written at positions

A file is the list of its bytes. A write replaces the bytes at its offset, and a write
behind the end fills the gap with zeros. A file keeps a write as long as later writes
stay away from its range.
-/

namespace File

/-- `pwrite`: store `bytes` at `offset`. -/
def writeAt (file : List UInt8) (offset : Nat) (bytes : List UInt8) : List UInt8 :=
  file.take offset ++ List.replicate (offset - file.length) 0 ++ bytes ++
    file.drop (offset + bytes.length)

/-- The bytes stand in the file at the offset. -/
def Holds (file : List UInt8) (offset : Nat) (bytes : List UInt8) : Prop :=
  ∀ j b, bytes[j]? = some b → file[offset + j]? = some b

theorem length_writeAt (file : List UInt8) (offset : Nat) (bytes : List UInt8) :
    (writeAt file offset bytes).length = max file.length (offset + bytes.length) := by
  simp [writeAt]
  omega

/-- What stands before the bytes of a write is as long as its offset. -/
theorem length_front (file : List UInt8) (offset : Nat) :
    (file.take offset ++ List.replicate (offset - file.length) 0).length = offset := by
  simp
  omega

theorem holds_writeAt (file : List UInt8) (offset : Nat) (bytes : List UInt8) :
    Holds (writeAt file offset bytes) offset bytes := by
  intro j b hj
  obtain ⟨inside, -⟩ := List.getElem?_eq_some_iff.mp hj
  have front := length_front file offset
  rw [writeAt, List.append_assoc _ bytes, List.getElem?_append_right (by omega), front,
    Nat.add_sub_cancel_left, List.getElem?_append_left inside, hj]

/-- A write outside the range of an earlier one keeps it. -/
theorem Holds.writeAt {file : List UInt8} {offset offset' : Nat} {bytes bytes' : List UInt8}
    (h : Holds file offset bytes)
    (disjoint : offset + bytes.length ≤ offset' ∨ offset' + bytes'.length ≤ offset) :
    Holds (writeAt file offset' bytes') offset bytes := by
  intro j b hj
  obtain ⟨inside, -⟩ := List.getElem?_eq_some_iff.mp hj
  have stored := h j b hj
  obtain ⟨inFile, -⟩ := List.getElem?_eq_some_iff.mp stored
  have front := length_front file offset'
  obtain before | behind := disjoint
  · rw [File.writeAt, List.append_assoc _ bytes', List.getElem?_append_left (by omega),
      List.getElem?_append_left (by simp; omega), List.getElem?_take_of_lt (by omega), stored]
  · rw [File.writeAt,
      List.getElem?_append_right (by simp only [List.length_append] at front ⊢; omega),
      List.getElem?_drop, ← stored]
    congr 1
    simp only [List.length_append] at front ⊢
    omega

end File
