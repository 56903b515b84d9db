import UnixProgramming.Library.CMemory
import UnixProgramming.Library.Fallible
import Mathlib.Tactic.Tauto

/-!
# `strtok`

A call goes on from the saved position. It skips separators, and the token ends at
the next separator, which it overwrites with a NUL, or at the end of the string.
-/

namespace Strtok

open CMemory Fallible

/-- The token that a call returns, or NULL, the buffer and the saved position. -/
structure Result where
  token : Option Nat
  buf : Block
  save : Nat
  deriving DecidableEq

def strtok (delims : List UInt8) (buf : Block) (save : Nat) : Except Fault Result := do
  let start := save + ((buf.drop save).takeWhile (· ∈ delims)).length
  if (← load buf start) = 0 then
    return ⟨none, buf, start⟩
  else
    let stop := start + ((buf.drop start).takeWhile (fun c => c ∉ delims ∧ c ≠ 0)).length
    if (← load buf stop) = 0 then
      return ⟨some start, buf, stop⟩
    else
      return ⟨some start, buf.set stop 0, stop + 1⟩

/-! ## Words -/

/-- The words of a string: what stands between separators. -/
def wordsOf (delims : List UInt8) (s : Block) : List Block :=
  (s.splitOnP (· ∈ delims)).filter (· ≠ [])

variable {delims front gap word rest back : Block}

@[simp] theorem wordsOf_nil : wordsOf delims [] = [] := by
  simp [wordsOf, List.splitOnP_nil]

theorem wordsOf_gap (separators : ∀ c ∈ gap, c ∈ delims) (s : Block) :
    wordsOf delims (gap ++ s) = wordsOf delims s := by
  induction gap with
  | nil => rfl
  | cons c gap ih =>
      have first : c ∈ delims := separators c List.mem_cons_self
      have split := @List.splitOnP_append_cons_of_forall_mem _ (· ∈ delims) [] (by simp) c
        (by simpa using first) (gap ++ s)
      rw [List.nil_append] at split
      rw [← ih fun c mem => separators c (List.mem_cons_of_mem _ mem), wordsOf, List.cons_append,
        split]
      simp [wordsOf]

theorem wordsOf_last (nonempty : word ≠ []) (plain : ∀ c ∈ word, c ∉ delims) :
    wordsOf delims word = [word] := by
  rw [wordsOf, List.splitOnP_eq_singleton (by simpa using plain)]
  simp [nonempty]

theorem wordsOf_word (nonempty : word ≠ []) (plain : ∀ c ∈ word, c ∉ delims) {d : UInt8}
    (separator : d ∈ delims) (s : Block) :
    wordsOf delims (word ++ d :: s) = word :: wordsOf delims s := by
  rw [wordsOf, List.splitOnP_append_cons_of_forall_mem (by simpa using plain) d
    (by simpa using separator)]
  simp [wordsOf, nonempty]

/-! ## One call -/

theorem drop_append_append (front middle back : Block) :
    (front ++ middle ++ back).drop (front.length + middle.length) = back := by
  rw [← List.length_append, List.drop_left]

/-- Behind the separators there is no token at the end of the string. -/
theorem strtok_end (separators : ∀ c ∈ gap, c ∈ delims) (noNul : 0 ∉ delims) :
    strtok delims (front ++ gap ++ 0 :: back) front.length =
      .ok ⟨none, front ++ gap ++ 0 :: back, front.length + gap.length⟩ := by
  have skipped : ((front ++ gap ++ 0 :: back).drop front.length).takeWhile (· ∈ delims) = gap := by
    rw [List.append_assoc, List.drop_left,
      List.takeWhile_append_of_pos fun c hc => by simpa using separators c hc]
    simp [noNul]
  have ending : load (front ++ gap ++ 0 :: back) (front.length + gap.length) = .ok 0 := by
    rw [← List.length_append]
    exact load_append_cons _ _ _
  simp only [strtok, skipped, ending, ok_bind, if_true, pure_eq_ok]

/-- Behind the separators a token ends at the next separator or at the end of the string,
where there is a NUL afterwards. -/
theorem strtok_word {e : UInt8} (separators : ∀ c ∈ gap, c ∈ delims) (nonempty : word ≠ [])
    (plain : ∀ c ∈ word, c ∉ delims ∧ c ≠ 0) (ending : e ∈ delims ∨ e = 0) :
    strtok delims (front ++ gap ++ (word ++ e :: back)) front.length =
      .ok ⟨some (front.length + gap.length), front ++ gap ++ (word ++ 0 :: back),
        front.length + gap.length + word.length + (if e = 0 then 0 else 1)⟩ := by
  obtain ⟨c, word, rfl⟩ := List.exists_cons_of_ne_nil nonempty
  have first := plain c (by simp)
  have skipped : ((front ++ gap ++ (c :: word ++ e :: back)).drop front.length).takeWhile
      (· ∈ delims) = gap := by
    rw [List.append_assoc, List.drop_left,
      List.takeWhile_append_of_pos fun c hc => by simpa using separators c hc]
    simp [first.1]
  have head : load (front ++ gap ++ (c :: word ++ e :: back)) (front.length + gap.length) =
      .ok c := by
    rw [← List.length_append]
    exact load_append_cons _ _ _
  have whole : ((front ++ gap ++ (c :: word ++ e :: back)).drop
      (front.length + gap.length)).takeWhile (fun c => c ∉ delims ∧ c ≠ 0) = c :: word := by
    have last : ¬ (e ∉ delims ∧ e ≠ 0) := by tauto
    rw [drop_append_append, List.takeWhile_append_of_pos fun c hc => by simpa using plain c hc]
    simp [last]
  have stop : front.length + gap.length + (c :: word).length =
      (front ++ gap ++ (c :: word)).length := by
    simp only [List.length_append]
  have next : load (front ++ gap ++ (c :: word ++ e :: back))
      (front.length + gap.length + (c :: word).length) = .ok e := by
    rw [stop, ← List.append_assoc]
    exact load_append_cons _ _ _
  have ended : (front ++ gap ++ (c :: word ++ e :: back)).set
      (front.length + gap.length + (c :: word).length) 0 =
        front ++ gap ++ (c :: word ++ 0 :: back) := by
    rw [stop, ← List.append_assoc, List.set_append_right _ _ le_rfl, Nat.sub_self,
      List.set_cons_zero, List.append_assoc]
  simp only [strtok, skipped, head, ok_bind, if_neg first.2, whole, next]
  by_cases nul : e = 0
  · simp only [nul, if_true, pure_eq_ok, Nat.add_zero]
  · simp only [nul, if_false, pure_eq_ok, ended]

/-- The first word of a string, if it has one, and what ends it. -/
theorem exists_word (delims : List UInt8) (s : Block) :
    (∀ c ∈ s, c ∈ delims) ∨
      ∃ gap word tail, s = gap ++ (word ++ tail) ∧ (∀ c ∈ gap, c ∈ delims) ∧ word ≠ [] ∧
        (∀ c ∈ word, c ∉ delims) ∧ (tail = [] ∨ ∃ d rest, tail = d :: rest ∧ d ∈ delims) := by
  induction s with
  | nil => exact .inl (by simp)
  | cons c s ih =>
      by_cases separator : c ∈ delims
      · obtain all | ⟨gap, word, tail, rfl, gaps, rest⟩ := ih
        · exact .inl (List.forall_mem_cons.mpr ⟨separator, all⟩)
        · exact .inr ⟨c :: gap, word, tail, rfl, List.forall_mem_cons.mpr ⟨separator, gaps⟩, rest⟩
      · have split := List.takeWhile_append_dropWhile (p := (· ∉ delims)) (l := s)
        refine .inr ⟨[], c :: s.takeWhile (· ∉ delims), s.dropWhile (· ∉ delims), by simp, by simp,
          by simp, ?_, ?_⟩
        · refine List.forall_mem_cons.mpr ⟨separator, fun d mem => ?_⟩
          simpa using List.mem_takeWhile_imp mem
        · cases tail : s.dropWhile (· ∉ delims) with
          | nil => exact .inl rfl
          | cons d rest =>
              have stop := List.head?_dropWhile_not (· ∉ delims) s
              rw [tail] at stop
              exact .inr ⟨d, rest, rfl, by simpa using stop⟩

/-- What a call makes of the rest of a string: it ends, or the call takes its next word. -/
inductive Next (delims rest back : Block) (r : Result) : Prop
  | ending (token : r.token = none) (words : wordsOf delims rest = [])
  | word (front' rest' : Block) {p : Nat} {word : Block} (token : r.token = some p)
      (buf : r.buf = front' ++ rest' ++ 0 :: back) (save : r.save = front'.length)
      (plain : 0 ∉ rest') (words : wordsOf delims rest = word :: wordsOf delims rest')

theorem strtok_next (noNul : 0 ∉ delims) (plain : 0 ∉ rest) (front back : Block) :
    ∃ r, strtok delims (front ++ rest ++ 0 :: back) front.length = .ok r ∧
      Next delims rest back r := by
  obtain all | ⟨gap, word, tail, rfl, gaps, nonempty, pure, last⟩ := exists_word delims rest
  · refine ⟨_, strtok_end all noNul, .ending rfl ?_⟩
    simpa using wordsOf_gap all []
  · have plainWord : ∀ c ∈ word, c ∉ delims ∧ c ≠ 0 := by
      intro c mem
      refine ⟨pure c mem, fun nul => plain ?_⟩
      simp [← nul, mem]
    obtain rfl | ⟨d, rest', rfl, separator⟩ := last
    · have called := @strtok_word delims front gap word back 0 gaps nonempty plainWord (.inr rfl)
      have words : wordsOf delims (gap ++ (word ++ [])) = word :: wordsOf delims [] := by
        rw [wordsOf_gap gaps, List.append_nil, wordsOf_last nonempty pure, wordsOf_nil]
      exact ⟨_, by simpa using called, .word (front ++ gap ++ word) [] rfl (by simp)
        (by simp [Nat.add_assoc]) (by simp) words⟩
    · have notNul : d ≠ 0 := fun nul => noNul (nul ▸ separator)
      have called := @strtok_word delims front gap word (rest' ++ 0 :: back) d gaps nonempty
        plainWord (.inl separator)
      have words : wordsOf delims (gap ++ (word ++ d :: rest')) = word :: wordsOf delims rest' := by
        rw [wordsOf_gap gaps, wordsOf_word nonempty pure separator]
      exact ⟨_, by simpa using called, .word (front ++ gap ++ word ++ [0]) rest' rfl (by simp)
        (by simp [notNul, Nat.add_assoc]) (fun mem => plain (by simp [mem])) words⟩

theorem next_of_strtok {buf : Block} {save : Nat} {r : Result} (noNul : 0 ∉ delims)
    (plain : 0 ∉ rest) (split : buf = front ++ rest ++ 0 :: back) (position : save = front.length)
    (called : strtok delims buf save = .ok r) : Next delims rest back r := by
  obtain ⟨r', called', next⟩ := strtok_next noNul plain front back
  rw [split, position, called'] at called
  cases called
  exact next

end Strtok
