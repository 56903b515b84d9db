import UnixProgramming.Unp.Readline

/-!
# The count of `readline_v1`

`readline_v1` stores the next line of the stream and a NUL behind it. Its counter starts
at one: it is the number of bytes stored when a newline ends the loop, one more than that
number at end of file, where one is taken off again, and one more than that number when
`maxlen` ends the loop, where nothing is taken off.
-/

namespace UnixProgramming.Unp

open CMemory Descriptor

/-- The bytes `s` are the line at the front of a stream, up to and including its newline,
or up to `limit` bytes, or up to end of file, whichever comes first. -/
structure NextLine (limit : Nat) (bytes s rest : List UInt8) : Prop where
  split : bytes = s ++ rest
  short : s.length ≤ limit
  first : newline ∉ s.dropLast
  ended : s.getLast? = some newline ∨ s.length = limit ∨ rest = []

/-- A line goes on with the line behind its first byte. -/
theorem NextLine.cons {limit : Nat} {bytes s rest : List UInt8} {c : UInt8}
    (h : NextLine limit bytes s rest) (ne : c ≠ newline) :
    NextLine (limit + 1) (c :: bytes) (c :: s) rest where
  split := by rw [h.split, List.cons_append]
  short := Nat.succ_le_succ h.short
  first := by
    cases s with
    | nil => simp
    | cons d s =>
        intro mem
        obtain eq | later := List.mem_cons.mp mem
        · exact ne eq.symm
        · exact h.first later
  ended := by
    obtain last | full | done := h.ended
    · left
      cases s with
      | nil => simp at last
      | cons d s => simpa using last
    · right
      left
      exact congrArg Nat.succ full
    · right
      right
      exact done

theorem nextLine_takeLine (limit : Nat) (bytes : List UInt8) :
    NextLine limit bytes (takeLine limit bytes) (dropLine limit bytes) := by
  induction limit generalizing bytes with
  | zero =>
      have taken : takeLine 0 bytes = [] := by cases bytes <;> rfl
      have left : dropLine 0 bytes = bytes := by cases bytes <;> rfl
      rw [taken, left]
      exact ⟨rfl, le_rfl, by simp, .inr (.inl rfl)⟩
  | succ limit ih =>
      cases bytes with
      | nil => exact ⟨rfl, Nat.zero_le _, by simp [takeLine], .inr (.inr rfl)⟩
      | cons c bytes =>
          by_cases h : c = newline
          · rw [takeLine, dropLine, if_pos h, if_pos h, h]
            exact ⟨rfl, by simp, by simp, .inl rfl⟩
          · rw [takeLine, dropLine, if_neg h, if_neg h]
            exact (ih bytes).cons h

/-- `maxlen` cuts the line: a newline is not among the first `limit` bytes, and the stream
has that many. -/
def Cut (limit : Nat) (bytes : List UInt8) : Prop :=
  newline ∉ bytes.take limit ∧ limit ≤ bytes.length

/-- The count is the length of the line, and one more where the line is cut. -/
theorem lineRet_eq (limit : Nat) (n : Int) (bytes : List UInt8) :
    (Cut limit bytes → lineRet limit n bytes = n + (takeLine limit bytes).length) ∧
      (¬ Cut limit bytes → lineRet limit n bytes = n - 1 + (takeLine limit bytes).length) := by
  induction limit generalizing n bytes with
  | zero =>
      have cut : Cut 0 bytes := ⟨by simp, Nat.zero_le _⟩
      refine ⟨fun _ => ?_, fun whole => absurd cut whole⟩
      cases bytes <;> simp [lineRet, takeLine]
  | succ limit ih =>
      cases bytes with
      | nil =>
          refine ⟨fun cut => absurd cut.2 (by simp), fun _ => ?_⟩
          simp [lineRet, takeLine]
      | cons c bytes =>
          by_cases h : c = newline
          · refine ⟨fun cut => absurd cut.1 (by simp [h]), fun _ => ?_⟩
            simp [lineRet, takeLine, h]
          · have cut : Cut (limit + 1) (c :: bytes) ↔ Cut limit bytes := by
              simp [Cut, Ne.symm h]
            obtain ⟨more, same⟩ := ih (n + 1) bytes
            rw [cut, lineRet, takeLine, if_neg h, if_neg h, List.length_cons]
            refine ⟨fun hcut => ?_, fun whole => ?_⟩
            · rw [more hcut]
              omega
            · rw [same whole]
              omega

/-- The law of a line reader. The call takes the next line off the descriptor, stores it with
one NUL behind it, leaves the rest of the caller's buffer alone and returns its length. -/
structure ReadsLine (fd : Script) (vptr : Block) (maxlen : Nat) (line : Line)
    (s : List UInt8) : Prop where
  next : NextLine (maxlen - 1) (bytesOf fd) s (bytesOf line.fd)
  stored : line.vptr = s ++ 0 :: vptr.drop (s.length + 1)
  beyond : line.vptr.drop maxlen = vptr.drop maxlen
  ret : line.ret = s.length

variable {fd : Script} {vptr : Block} {maxlen : Nat}

/-- Everything but the count is right in every call. -/
theorem readlineV1_stores (pos : 1 ≤ maxlen) (room : maxlen ≤ vptr.length) (clean : Clean fd) :
    ∃ line, readlineV1 fd vptr maxlen = .ok line ∧
      line.ret = lineRet (maxlen - 1) 1 (bytesOf fd) ∧
      ∀ s, ReadsLine fd vptr maxlen line s ↔
        s = takeLine (maxlen - 1) (bytesOf fd) ∧ line.ret = s.length := by
  obtain ⟨line, call, ret, contents, -, rest⟩ := readlineV1_spec pos room clean
  have next := nextLine_takeLine (maxlen - 1) (bytesOf fd)
  rw [← rest] at next
  refine ⟨line, call, ret, fun s => ?_⟩
  constructor
  · intro h
    have same : s ++ bytesOf line.fd = takeLine (maxlen - 1) (bytesOf fd) ++ bytesOf line.fd :=
      h.next.split.symm.trans next.split
    exact ⟨List.append_cancel_right same, h.ret⟩
  · rintro ⟨rfl, count⟩
    refine ⟨next, contents, ?_, count⟩
    have short := next.short
    have behind : maxlen - (takeLine (maxlen - 1) (bytesOf fd)).length =
        maxlen - 1 - (takeLine (maxlen - 1) (bytesOf fd)).length + 1 := by omega
    rw [contents, List.drop_append, List.drop_eq_nil_of_le (by omega), List.nil_append, behind,
      List.drop_succ_cons, List.drop_drop]
    congr 1
    omega

/-- `readline_v1` keeps the law of a line reader exactly where `maxlen` does not cut the line:
there is a newline among the first `maxlen - 1` bytes of the stream, or the stream is shorter
than that. -/
theorem readlineV1_reads_line_iff (pos : 1 ≤ maxlen) (room : maxlen ≤ vptr.length)
    (clean : Clean fd) :
    ∃ line, readlineV1 fd vptr maxlen = .ok line ∧
      ((∃ s, ReadsLine fd vptr maxlen line s) ↔
        newline ∈ (bytesOf fd).take (maxlen - 1) ∨ (bytesOf fd).length < maxlen - 1) := by
  obtain ⟨line, call, ret, law⟩ := readlineV1_stores pos room clean
  obtain ⟨more, same⟩ := lineRet_eq (maxlen - 1) 1 (bytesOf fd)
  have whole : ¬ Cut (maxlen - 1) (bytesOf fd) ↔
      newline ∈ (bytesOf fd).take (maxlen - 1) ∨ (bytesOf fd).length < maxlen - 1 := by
    rw [Cut, not_and_or, not_not, not_le]
  refine ⟨line, call, ?_⟩
  rw [← whole]
  constructor
  · rintro ⟨s, h⟩ cut
    obtain ⟨rfl, count⟩ := (law s).mp h
    rw [ret, more cut] at count
    omega
  · intro uncut
    refine ⟨_, (law _).mpr ⟨rfl, ?_⟩⟩
    rw [ret, same uncut]
    omega

/-- A newline ends the line, with an interrupted call in front of it. -/
theorem readlineV1_reads_line_newline :
    ∃ line, readlineV1 [.data [104], .fail .eintr, .data [10, 105]] [7, 7, 7, 7] 4 = .ok line ∧
      ∃ s, ReadsLine [.data [104], .fail .eintr, .data [10, 105]] [7, 7, 7, 7] 4 line s := by
  have clean : Clean [.data [104], .fail .eintr, .data [10, 105]] := by decide
  have room : 4 ≤ ([7, 7, 7, 7] : Block).length := by decide
  obtain ⟨line, call, law⟩ := readlineV1_reads_line_iff (by decide) room clean
  exact ⟨line, call, law.mpr (by decide)⟩

/-- With `maxlen` 3, `readline_v1` stores two bytes of a longer line and returns three. -/
theorem readlineV1_counts_cut_line :
    1 ≤ 3 ∧ 3 ≤ ([7, 7, 7] : Block).length ∧ Clean [.data [104, 105, 33, 10]] ∧
      readlineV1 [.data [104, 105, 33, 10]] [7, 7, 7] 3 =
        .ok ⟨3, [104, 105, 0], [.data [33, 10]]⟩ ∧
      ∀ s, ¬ ReadsLine [.data [104, 105, 33, 10]] [7, 7, 7] 3
        ⟨3, [104, 105, 0], [.data [33, 10]]⟩ s := by
  refine ⟨by decide, by decide, by decide, rfl, ?_⟩
  intro s h
  have split : [104, 105, 33, 10] = s ++ [33, 10] := h.next.split
  have same : s = [104, 105] := List.append_cancel_right (split.symm.trans rfl)
  have count : (3 : Int) = s.length := h.ret
  rw [same] at count
  exact absurd count (by decide)

end UnixProgramming.Unp
