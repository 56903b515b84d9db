import UnixProgramming.Library.CMemory

/-!
# Byte streams between two processes

One direction of a connection, or a file that is read from its start: the bytes in
flight and whether the writing end is closed. Each call moves as many bytes as the
environment chooses, within what the call asks for.
-/

structure Pipe where
  data : List UInt8
  closed : Bool
  deriving DecidableEq, Repr

namespace Pipe

/-- A `read` call does not block. -/
def Ready (p : Pipe) : Prop := p.data ≠ [] ∨ p.closed = true

instance : DecidablePred Ready := fun p =>
  inferInstanceAs (Decidable (p.data ≠ [] ∨ p.closed = true))

/-- A `read` call with room for `count` bytes returns `n` bytes. It blocks on an open
pipe without bytes, and returns no byte only at the end of the stream. -/
def read (p : Pipe) (count n : Nat) : Option (List UInt8 × Pipe) :=
  if p.data = [] then
    if p.closed = true ∧ n = 0 then some ([], p) else none
  else if 1 ≤ n ∧ n ≤ count ∧ n ≤ p.data.length then
    some (p.data.take n, { p with data := p.data.drop n })
  else none

def write (p : Pipe) (bytes : List UInt8) : Pipe := { p with data := p.data ++ bytes }

def close (p : Pipe) : Pipe := { p with closed := true }

@[simp] theorem write_data (p : Pipe) (bytes : List UInt8) :
    (p.write bytes).data = p.data ++ bytes := rfl

@[simp] theorem write_closed (p : Pipe) (bytes : List UInt8) :
    (p.write bytes).closed = p.closed := rfl

@[simp] theorem close_data (p : Pipe) : p.close.data = p.data := rfl

/-- What a successful call takes from the stream. -/
structure ReadSpec (p : Pipe) (n : Nat) (bytes : List UInt8) (p' : Pipe) : Prop where
  stream : bytes ++ p'.data = p.data
  taken : bytes = p.data.take n
  length : bytes.length = n
  closed : p'.closed = p.closed
  atEnd : bytes = [] → p.data = [] ∧ p.closed = true

theorem read_spec {p p' : Pipe} {count n : Nat} {bytes : List UInt8}
    (h : p.read count n = some (bytes, p')) : ReadSpec p n bytes p' := by
  rw [read] at h
  split at h
  · rename_i empty
    split at h
    · rename_i ending
      cases h
      exact ⟨by simp, by simp [empty], ending.2.symm, rfl, fun _ => ⟨empty, ending.1⟩⟩
    · cases h
  · rename_i nonempty
    split at h
    · rename_i bounds
      cases h
      refine ⟨by simp, rfl, by simp [bounds.2.2], rfl, fun none => ?_⟩
      obtain zero | empty := List.take_eq_nil_iff.mp none
      · omega
      · exact absurd empty nonempty
    · cases h

/-- At the end of the stream nothing changes. -/
theorem ReadSpec.unchanged {p p' : Pipe} {n : Nat} (spec : ReadSpec p n [] p') : p' = p := by
  cases p
  cases p'
  rw [Pipe.mk.injEq]
  exact ⟨spec.stream, spec.closed⟩

/-- A call on an open pipe returns at least one byte. -/
theorem ReadSpec.ne_nil {p p' : Pipe} {n : Nat} {bytes : List UInt8}
    (spec : ReadSpec p n bytes p') (more : p.closed = false) : bytes ≠ [] :=
  fun none_ => Bool.noConfusion (more.symm.trans (spec.atEnd none_).2)

theorem length_le_of_read {p p' : Pipe} {count n : Nat} {bytes : List UInt8}
    (h : p.read count n = some (bytes, p')) : bytes.length ≤ count := by
  rw [read] at h
  split at h
  · split at h
    · cases h
      exact Nat.zero_le _
    · cases h
  · split at h
    · rename_i bounds
      cases h
      exact (List.length_take_le n _).trans bounds.2.1
    · cases h

/-- A call that has room for the bytes of the pipe takes as many of them as it is told to. -/
theorem read_of_ne {p : Pipe} (count : Nat) (some_ : p.data ≠ []) (room : 1 ≤ count) :
    p.read count 1 = some (p.data.take 1, { p with data := p.data.drop 1 }) := by
  rw [read, if_neg some_, if_pos ⟨le_rfl, room, List.length_pos_iff.mpr some_⟩]

theorem read_of_closed {p : Pipe} (count : Nat) (empty : p.data = []) (closed : p.closed = true) :
    p.read count 0 = some ([], p) := by
  rw [read, if_pos empty, if_pos ⟨closed, rfl⟩]

/-- One `write` call of a loop that has `rest` to write: `k` bytes go out. -/
def writeSome (rest : List UInt8) (k : Nat) : Option (List UInt8 × List UInt8) :=
  if 1 ≤ k ∧ k ≤ rest.length then some (rest.take k, rest.drop k) else none

theorem writeSome_spec {rest out rest' : List UInt8} {k : Nat}
    (h : writeSome rest k = some (out, rest')) : out ++ rest' = rest := by
  rw [writeSome] at h
  split at h
  · cases h
    exact List.take_append_drop k rest
  · cases h

theorem writeSome_pos {rest out rest' : List UInt8} {k : Nat}
    (h : writeSome rest k = some (out, rest')) : 0 < out.length := by
  rw [writeSome] at h
  split at h
  · rename_i bounds
    cases h
    rw [List.length_take]
    omega
  · cases h

theorem writeSome_one {rest : List UInt8} (more : rest ≠ []) :
    writeSome rest 1 = some (rest.take 1, rest.drop 1) :=
  if_pos ⟨le_rfl, List.length_pos_iff.mpr more⟩

end Pipe
