import UnixProgramming.Unp.LineLaw

/-!
# The lines that `fgets` returns

With room for `limit` bytes, each call returns the bytes up to the next newline, or `limit` bytes
of a longer line.
-/

namespace UnixProgramming.Unp

variable {limit : Nat} {input : List UInt8}

structure FgetsLine (limit : Nat) (line : List UInt8) : Prop where
  short : line.length ≤ limit
  first : newline ∉ line.dropLast

theorem fgetsLine_takeLine (limit : Nat) (input : List UInt8) :
    FgetsLine limit (takeLine limit input) :=
  have next := nextLine_takeLine limit input
  ⟨next.short, next.first⟩

theorem takeLine_ne_nil (positive : 0 < limit) (more : input ≠ []) :
    takeLine limit input ≠ [] := by
  intro none
  have next := nextLine_takeLine limit input
  obtain last | full | done := next.ended
  · simp [none] at last
  · rw [none] at full
    exact positive.ne full
  · exact more (by rw [next.split, none, done]; rfl)

theorem length_dropLine_lt (positive : 0 < limit) (more : input ≠ []) :
    (dropLine limit input).length < input.length := by
  have split := congrArg List.length (nextLine_takeLine limit input).split
  have taken := List.length_pos_iff.mpr (takeLine_ne_nil positive more)
  rw [List.length_append] at split
  omega

/-- The lines of the calls up to the end of the input. -/
def fgetsLines (limit : Nat) (input : List UInt8) : List (List UInt8) :=
  if _more : 0 < limit ∧ input ≠ [] then
    takeLine limit input :: fgetsLines limit (dropLine limit input)
  else []
termination_by input.length
decreasing_by exact length_dropLine_lt _more.1 _more.2

theorem fgetsLines_nil (limit : Nat) : fgetsLines limit [] = [] := by
  rw [fgetsLines, dif_neg (fun more => more.2 rfl)]

theorem fgetsLines_of_ne (positive : 0 < limit) (more : input ≠ []) :
    fgetsLines limit input = takeLine limit input :: fgetsLines limit (dropLine limit input) := by
  rw [fgetsLines, dif_pos ⟨positive, more⟩]

/-- The lines are the whole input. -/
theorem flatten_fgetsLines (positive : 0 < limit) (input : List UInt8) :
    (fgetsLines limit input).flatten = input := by
  induction input using fgetsLines.induct limit with
  | case1 input more ih =>
      rw [fgetsLines_of_ne more.1 more.2, List.flatten_cons, ih]
      exact (nextLine_takeLine limit input).split.symm
  | case2 input done =>
      have empty : input = [] := by simpa [positive] using done
      rw [empty, fgetsLines_nil]
      rfl

/-- A line that has a newline at its end, and no other, is a line of its own. -/
theorem takeLine_newline {line : List UInt8} (first : newline ∉ line) (short : line.length < limit)
    (rest : List UInt8) :
    takeLine limit (line ++ newline :: rest) = line ++ [newline] ∧
      dropLine limit (line ++ newline :: rest) = rest := by
  induction line generalizing limit with
  | nil =>
      obtain ⟨limit, rfl⟩ := Nat.exists_eq_succ_of_ne_zero short.ne'
      rw [List.nil_append, takeLine, dropLine, if_pos rfl, if_pos rfl]
      exact ⟨rfl, rfl⟩
  | cons c line ih =>
      obtain ⟨limit, rfl⟩ := Nat.exists_eq_succ_of_ne_zero (Nat.ne_zero_of_lt short)
      obtain ⟨other, later⟩ : newline ≠ c ∧ newline ∉ line := by simpa using first
      obtain ⟨taken, left⟩ := ih later (Nat.lt_of_succ_lt_succ short)
      rw [List.cons_append, takeLine, dropLine, if_neg other.symm, if_neg other.symm, taken, left]
      exact ⟨rfl, rfl⟩

theorem fgetsLines_flatten {lines : List (List UInt8)}
    (each : ∀ line ∈ lines, newline ∉ line ∧ line.length < limit) :
    fgetsLines limit (lines.map (· ++ [newline])).flatten = lines.map (· ++ [newline]) := by
  induction lines with
  | nil => exact fgetsLines_nil limit
  | cons line lines ih =>
      obtain ⟨first, short⟩ := each line List.mem_cons_self
      have text : ((line :: lines).map (· ++ [newline])).flatten =
          line ++ newline :: (lines.map (· ++ [newline])).flatten := by simp
      obtain ⟨taken, left⟩ := takeLine_newline first short (lines.map (· ++ [newline])).flatten
      rw [text, fgetsLines_of_ne (Nat.zero_lt_of_lt short) (by simp), taken, left,
        ih fun line mem => each line (List.mem_cons_of_mem _ mem)]
      rfl

end UnixProgramming.Unp
