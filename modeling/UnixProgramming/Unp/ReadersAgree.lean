import UnixProgramming.Unp.Readline

/-!
# Whole sequences of calls of the two line readers

The same calls are made on one stream by `readline_v1` and by `readline_v3`, the
second starting from an empty `read_buf`. The two streams may be cut differently.
All counts agree. The contents agree on the calls that have nothing to show,
because `readline_v3` never moves its store position.
-/

namespace UnixProgramming.Unp

open CMemory Descriptor Fallible

/-- The arguments of a call besides the descriptor. -/
structure Call where
  maxlen : Nat
  vptr : Block

/-- The caller's buffer holds `maxlen` bytes, and `maxlen` is not zero. -/
def Call.Fits (call : Call) : Prop := 1 ≤ call.maxlen ∧ call.maxlen ≤ call.vptr.length

instance : DecidablePred Call.Fits := fun call =>
  inferInstanceAs (Decidable (1 ≤ call.maxlen ∧ call.maxlen ≤ call.vptr.length))

/-- The return value of each call and the string it leaves in the caller's buffer. -/
def runV1 (fd : Script) : List Call → Except Fault (List (Int × Block))
  | [] => .ok []
  | call :: calls => do
      let line ← readlineV1 fd call.vptr call.maxlen
      let results ← runV1 line.fd calls
      return (line.ret, cString line.vptr) :: results

def runV3 (fd : Script) (st : ReadState) : List Call → Except Fault (List (Int × Block))
  | [] => .ok []
  | call :: calls => do
      let (line, st) ← readlineV3 fd st call.vptr call.maxlen
      let results ← runV3 line.fd st calls
      return (line.ret, cString line.vptr) :: results

/-- Call by call, both readers return the same count and leave the same string. -/
def ReadersAgree (fd₁ fd₃ : Script) (calls₁ calls₃ : List Call) : Prop :=
  ∃ results, runV1 fd₁ calls₁ = .ok results ∧ runV3 fd₃ .init calls₃ = .ok results

/-- The counts that lines of the given lengths leave, and what `contents` makes of each. -/
def lineResults (contents : List UInt8 → Block) :
    List Nat → List UInt8 → List (Int × Block)
  | [], _ => []
  | maxlen :: maxlens, bytes =>
      (lineRet (maxlen - 1) 1 bytes, contents (takeLine (maxlen - 1) bytes)) ::
        lineResults contents maxlens (dropLine (maxlen - 1) bytes)

theorem runV1_eq {fd : Script} {calls : List Call} (fits : ∀ call ∈ calls, call.Fits)
    (clean : Clean fd) :
    runV1 fd calls = .ok (lineResults cString (calls.map Call.maxlen) (bytesOf fd)) := by
  induction calls generalizing fd with
  | nil => rfl
  | cons call calls ih =>
      obtain ⟨⟨pos, room⟩, others⟩ := List.forall_mem_cons.mp fits
      obtain ⟨line, run, ret, vptr, clean', rest⟩ := readlineV1_spec pos room clean
      simp [runV1, run, ih others clean', lineResults, ret, vptr, rest]

theorem runV3_eq {fd : Script} {st : ReadState} {calls : List Call}
    (fits : ∀ call ∈ calls, call.Fits) (clean : Clean fd) (valid : st.Valid) :
    runV3 fd st calls =
      .ok (lineResults (fun _ => []) (calls.map Call.maxlen) (st.unread ++ bytesOf fd)) := by
  induction calls generalizing fd st with
  | nil => rfl
  | cons call calls ih =>
      obtain ⟨⟨pos, room⟩, others⟩ := List.forall_mem_cons.mp fits
      obtain ⟨line, st', run, ret, vptr, clean', valid', rest⟩ :=
        readlineV3Loop_spec (call.maxlen - 1) 1 0 (by omega : 0 < call.vptr.length) clean valid
      simp [runV3, readlineV3, run, ih others clean' valid', lineResults, ret, vptr, rest]

/-- Every call has no room for a byte, or finds the end of file or a NUL byte next. -/
def NothingToShow : List Nat → List UInt8 → Prop
  | [], _ => True
  | maxlen :: maxlens, bytes =>
      (maxlen = 1 ∨ bytes = [] ∨ bytes.head? = some 0) ∧
        NothingToShow maxlens (dropLine (maxlen - 1) bytes)

theorem cString_takeLine_eq_nil_iff {maxlen : Nat} (pos : 1 ≤ maxlen) (bytes : List UInt8) :
    cString (takeLine (maxlen - 1) bytes) = [] ↔
      maxlen = 1 ∨ bytes = [] ∨ bytes.head? = some 0 := by
  obtain ⟨left, rfl⟩ : ∃ left, maxlen = left + 1 := ⟨maxlen - 1, by omega⟩
  rw [cString_eq_nil_iff, Nat.add_sub_cancel]
  cases left with
  | zero => simp [takeLine]
  | succ left =>
      cases bytes with
      | nil => simp [takeLine]
      | cons c bytes => by_cases h : c = newline <;> simp [takeLine, h]

theorem lineResults_eq_iff {maxlens : List Nat} (pos : ∀ maxlen ∈ maxlens, 1 ≤ maxlen)
    (bytes : List UInt8) :
    lineResults cString maxlens bytes = lineResults (fun _ => []) maxlens bytes ↔
      NothingToShow maxlens bytes := by
  induction maxlens generalizing bytes with
  | nil => simp [lineResults, NothingToShow]
  | cons maxlen maxlens ih =>
      obtain ⟨first, others⟩ := List.forall_mem_cons.mp pos
      simp [lineResults, NothingToShow, cString_takeLine_eq_nil_iff first, ih others]

/-- Counts do not depend on how strings are made. -/
theorem map_fst_lineResults (contents contents' : List UInt8 → Block) (maxlens : List Nat)
    (bytes : List UInt8) :
    (lineResults contents maxlens bytes).map Prod.fst =
      (lineResults contents' maxlens bytes).map Prod.fst := by
  induction maxlens generalizing bytes with
  | nil => rfl
  | cons maxlen maxlens ih => simp [lineResults, ih]

section SameStream

variable {fd₁ fd₃ : Script} {calls₁ calls₃ : List Call}
  (fits₁ : ∀ call ∈ calls₁, call.Fits) (fits₃ : ∀ call ∈ calls₃, call.Fits)
  (sameCalls : calls₁.map Call.maxlen = calls₃.map Call.maxlen)
  (clean₁ : Clean fd₁) (clean₃ : Clean fd₃) (sameBytes : bytesOf fd₁ = bytesOf fd₃)

include fits₃ sameCalls clean₃ sameBytes in
theorem runV3_same : runV3 fd₃ .init calls₃ =
    .ok (lineResults (fun _ => []) (calls₁.map Call.maxlen) (bytesOf fd₁)) := by
  have run := runV3_eq fits₃ clean₃ ReadState.valid_init
  have empty : ReadState.init.unread = [] := rfl
  rwa [empty, List.nil_append, ← sameCalls, ← sameBytes] at run

include fits₁ fits₃ sameCalls clean₁ clean₃ sameBytes

/-- Every call returns the same count, however the two streams are cut. -/
theorem counts_agree : ∃ results₁ results₃,
    runV1 fd₁ calls₁ = .ok results₁ ∧ runV3 fd₃ .init calls₃ = .ok results₃ ∧
      results₁.map Prod.fst = results₃.map Prod.fst :=
  ⟨_, _, runV1_eq fits₁ clean₁, runV3_same fits₃ sameCalls clean₃ sameBytes,
    map_fst_lineResults _ _ _ _⟩

/-- The readers agree exactly on the sequences of calls that have nothing to show. -/
theorem readers_agree_iff : ReadersAgree fd₁ fd₃ calls₁ calls₃ ↔
    NothingToShow (calls₁.map Call.maxlen) (bytesOf fd₁) := by
  have pos : ∀ maxlen ∈ calls₁.map Call.maxlen, 1 ≤ maxlen := by
    simpa using fun call h => (fits₁ call h).1
  rw [← lineResults_eq_iff pos, ReadersAgree, runV1_eq fits₁ clean₁,
    runV3_same fits₃ sameCalls clean₃ sameBytes]
  constructor
  · rintro ⟨results, first, third⟩
    rw [Except.ok.inj first, Except.ok.inj third]
  · intro same
    exact ⟨_, rfl, by rw [same]⟩

end SameStream

/-- A call without room, a NUL byte at the head of a line, and the end of the stream. -/
theorem readers_agree_blank :
    ReadersAgree [.data [0, 10]] [.data [0], .fail .eintr, .data [10]]
      [⟨1, [7]⟩, ⟨4, [7, 7, 7, 7]⟩, ⟨4, [7, 7, 7, 7]⟩]
      [⟨1, [9]⟩, ⟨4, [9, 9, 9, 9]⟩, ⟨4, [9, 9, 9, 9]⟩] :=
  (readers_agree_iff (by decide) (by decide) rfl (by decide) (by decide) rfl).mpr
    (by simp [NothingToShow, bytesOf, dropLine, newline])

/-- On a line `hi`, `readline_v1` leaves the line and `readline_v3` an empty string. -/
theorem readers_differ :
    (Call.mk 4 [7, 7, 7, 7]).Fits ∧ Clean [.data [104, 105, 10]] ∧
      ¬ ReadersAgree [.data [104, 105, 10]] [.data [104, 105, 10]]
        [⟨4, [7, 7, 7, 7]⟩] [⟨4, [7, 7, 7, 7]⟩] := by
  refine ⟨by decide, by decide, ?_⟩
  rintro ⟨results, first, third⟩
  have run₁ : runV1 [.data [104, 105, 10]] [⟨4, [7, 7, 7, 7]⟩] =
      .ok [(3, [104, 105, 10])] := by decide
  have run₃ : runV3 [.data [104, 105, 10]] .init [⟨4, [7, 7, 7, 7]⟩] = .ok [(3, [])] := by decide
  rw [run₁] at first
  rw [run₃, ← first] at third
  simp at third

end UnixProgramming.Unp
