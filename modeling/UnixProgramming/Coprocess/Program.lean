import UnixProgramming.Library.Progress
import UnixProgramming.Library.ReadText
import UnixProgramming.Library.Scan
import UnixProgramming.Unp.Lines

/-!
# `coprocess_test1` and `add2`

The parent sends a line through one pipe and reads the answer from another. Both processes run
call by call, in any order, and the child may be killed at any time. A line and an answer are
shorter than `PIPE_BUF`, so a `write` puts all of it into the pipe at once, and a `read` takes
what is there, as far as it has room.
-/

namespace UnixProgramming.Coprocess

open CMemory Transition Unp

def BUFFERSIZE : Nat := 4096

/-! ## The child -/

/-- The array `line` of `add2`, and the number of bytes that its `read` asks for. -/
def lineSize : Nat := 512

def readSize : Nat := 1024

def FitsInt (n : Int) : Prop := -2 ^ 31 ≤ n ∧ n < 2 ^ 31

instance : DecidablePred FitsInt := fun n => inferInstanceAs (Decidable (-2 ^ 31 ≤ n ∧ n < 2 ^ 31))

/-- What comes of `sscanf(line, "%d%d", &int1, &int2)` and `int1 + int2`. A number that is no
`int` is undefined. -/
inductive Scanned
  | sum (n : Int)
  | invalid
  | undefined
  deriving DecidableEq

def scanned (text : Block) : Scanned :=
  match scanInt text with
  | none => .invalid
  | some (int1, text) =>
      if ¬ FitsInt int1 then .undefined
      else
        match scanInt text with
        | none => .invalid
        | some (int2, _) =>
            if FitsInt int2 ∧ FitsInt (int1 + int2) then .sum (int1 + int2) else .undefined

/-- The loop body of `add2` up to its `write`: the array, and what is written. -/
def serve (line bytes : Block) : Option (Block × Block) := do
  let line ← (readText line bytes).toOption
  match scanned (cString line) with
  | .sum n =>
      -- `sprintf(line, "%d\n", int1 + int2)`
      let line ← (readText line (decimal n ++ [newline])).toOption
      return (line, line.take (strlen line))
  | .invalid => return (line, ascii "Invalid args\n")
  | .undefined => none

/-! ## Both processes -/

inductive ParentPc
  | fgets
  | write (line : Block)
  | read
  | exited
  | sigpipe
  | returned
  deriving DecidableEq

/-- What is printed where the parent ends because the child has gone: by `sig_pipe_handler`, or by
`err_ret`. -/
def ParentPc.lastLine : ParentPc → Block
  | sigpipe => ascii "SIGPIPE caught\n"
  | returned => ascii "child close pipe\r\n"
  | fgets | write _ | read | exited => []

inductive ChildPc
  | read
  | write (answer : Block)
  | exited
  | killed
  | undefined
  deriving DecidableEq

structure State where
  parent : ParentPc
  stdin : Block
  stdout : Block
  child : ChildPc
  line : Block
  toChild : Block
  toParent : Block

inductive Action
  | fgets
  | write
  | read
  | childRead
  | childWrite
  | kill
  deriving DecidableEq

/-- The process has gone, and with it its ends of the pipes. -/
def ParentPc.Ended : ParentPc → Prop
  | exited | sigpipe | returned => True
  | fgets | write _ | read => False

def ChildPc.Ended : ChildPc → Prop
  | exited | killed => True
  | read | write _ | undefined => False

instance : DecidablePred ParentPc.Ended
  | .exited | .sigpipe | .returned => .isTrue trivial
  | .fgets | .write _ | .read => .isFalse id

instance : DecidablePred ChildPc.Ended
  | .exited | .killed => .isTrue trivial
  | .read | .write _ | .undefined => .isFalse id

namespace State

def init (input : Block) (line : Vector UInt8 lineSize) : State where
  parent := .fgets
  stdin := input
  stdout := []
  child := .read
  line := line.toList
  toChild := []
  toParent := []

def fgets (s : State) : Option State :=
  if s.parent = .fgets then
    if s.stdin = [] then some { s with parent := .exited }
    else
      let line := takeLine (BUFFERSIZE - 1) s.stdin ++ [0]
      some { s with
        stdin := dropLine (BUFFERSIZE - 1) s.stdin
        parent := .write (line.take (strlen line)) }
  else none

/-- A `write` of no bytes does nothing. -/
def write (s : State) : Option State :=
  match s.parent with
  | .write line =>
      if line = [] then some { s with parent := .read }
      else if s.child.Ended then
        some { s with parent := .sigpipe, stdout := s.stdout ++ ParentPc.sigpipe.lastLine }
      else some { s with toChild := s.toChild ++ line, parent := .read }
  | _ => none

def read (s : State) : Option State :=
  if s.parent = .read then
    if s.toParent = [] then
      if s.child.Ended then
        some { s with parent := .returned, stdout := s.stdout ++ ParentPc.returned.lastLine }
      else none
    else
      some { s with
        toParent := s.toParent.drop BUFFERSIZE
        stdout := s.stdout ++ cString (s.toParent.take BUFFERSIZE ++ [0])
        parent := .fgets }
  else none

def childRead (s : State) : Option State :=
  if s.child = .read then
    if s.toChild = [] then
      if s.parent.Ended then some { s with child := .exited } else none
    else
      match serve s.line (s.toChild.take readSize) with
      | some (line, answer) =>
          some { s with toChild := s.toChild.drop readSize, line, child := .write answer }
      | none => some { s with child := .undefined }
  else none

def childWrite (s : State) : Option State :=
  match s.child with
  | .write answer =>
      if s.parent.Ended then some { s with child := .killed }
      else some { s with toParent := s.toParent ++ answer, child := .read }
  | _ => none

def step (s : State) : Action → Option State
  | .fgets => s.fgets
  | .write => s.write
  | .read => s.read
  | .childRead => s.childRead
  | .childWrite => s.childWrite
  | .kill =>
      match s.child with
      | .read | .write _ => some { s with child := .killed }
      | .exited | .killed | .undefined => none

end State

def Step (s : State) (act : Action) (s' : State) : Prop := s.step act = some s'

/-! ## One line -/

/-- The answer to a line that `add2` can read. -/
def reply (text : Block) : Option Block :=
  match scanned text with
  | .sum n => some (decimal n ++ [newline])
  | .invalid => some (ascii "Invalid args\n")
  | .undefined => none

theorem length_decimal_int {n : Int} (fits : FitsInt n) : (decimal n).length ≤ 11 := by
  have text (k : Nat) (small : k ≤ 2 ^ 31) : (decimal k).length ≤ 10 :=
    length_decimal_le (by decide) (by omega)
  obtain ⟨lower, upper⟩ := fits
  obtain ⟨k, rfl | rfl⟩ := n.eq_nat_or_neg
  · exact (text k (by omega)).trans (Nat.le_succ 10)
  · obtain rfl | positive := k.eq_zero_or_pos
    · exact (text 0 (Nat.zero_le _)).trans (Nat.le_succ 10)
    · rw [decimal_neg k positive, List.length_cons]
      exact Nat.succ_le_succ (text k (by omega))

theorem fits_of_scanned {text : Block} {n : Int} (h : scanned text = .sum n) : FitsInt n := by
  rw [scanned] at h
  split at h
  · cases h
  · split at h
    · cases h
    · split at h
      · cases h
      · split at h
        · rename_i fits
          cases h
          exact fits.2
        · cases h

/-- An answer is a text and leaves room for a NUL in both arrays. -/
theorem reply_text {text answer : Block} (h : reply text = some answer) :
    answer ≠ [] ∧ 0 ∉ answer ∧ answer.length < lineSize := by
  rw [reply] at h
  split at h
  · rename_i n sum
    cases h
    have short := length_decimal_int (fits_of_scanned sum)
    refine ⟨by simp, ?_, ?_⟩
    · rw [List.mem_append, List.mem_singleton]
      rintro (digit | nul)
      · exact absurd (decimal_printable n 0 digit) (by decide)
      · cases nul
    · rw [List.length_append, List.length_singleton, lineSize]
      omega
  · cases h
    exact ⟨by decide, by decide, by decide⟩
  · cases h

theorem readText_some {line bytes : Block} (size : line.length = lineSize)
    (short : bytes.length < lineSize) :
    ∃ line', (readText line bytes).toOption = some line' ∧ line'.length = lineSize ∧
      cString line' = cString bytes := by
  obtain ⟨line', stored, same, text⟩ := readText_short (size.symm ▸ short)
  exact ⟨line', by rw [stored]; rfl, same.trans size, text⟩

/-- A line that fits into the array is answered. -/
theorem serve_short {line bytes answer : Block} (size : line.length = lineSize)
    (plain : 0 ∉ bytes) (short : bytes.length < lineSize) (replies : reply bytes = some answer) :
    ∃ line', serve line bytes = some (line', answer) ∧ line'.length = lineSize := by
  obtain ⟨line', stored, size', text⟩ := readText_some size short
  rw [cString_of_notMem plain] at text
  have fits := reply_text replies
  rw [reply] at replies
  cases scan : scanned bytes with
  | undefined =>
      rw [scan] at replies
      cases replies
  | invalid =>
      rw [scan] at replies
      cases replies
      refine ⟨line', ?_, size'⟩
      simp only [serve, stored, Option.bind_eq_bind, Option.bind_some, text, scan]
      rfl
  | sum n =>
      rw [scan] at replies
      cases replies
      obtain ⟨line'', printed, size'', text''⟩ := readText_some size' fits.2.2
      rw [cString_of_notMem fits.2.1] at text''
      refine ⟨line'', ?_, size''⟩
      simp only [serve, stored, Option.bind_eq_bind, Option.bind_some, text, scan, printed]
      rw [take_strlen, text'']
      rfl

theorem serve_long {line bytes : Block} (size : line.length = lineSize)
    (long : lineSize ≤ bytes.length) : serve line bytes = none := by
  obtain ⟨fault, failed⟩ := readText_long (size.symm ▸ long)
  rw [serve, failed]
  rfl

theorem serve_undefined {line bytes : Block} (size : line.length = lineSize) (plain : 0 ∉ bytes)
    (replies : reply bytes = none) : serve line bytes = none := by
  obtain fits | long := Nat.lt_or_ge bytes.length lineSize
  · obtain ⟨line', stored, -, text⟩ := readText_some size fits
    rw [cString_of_notMem plain] at text
    have scan : scanned bytes = .undefined := by
      cases scan : scanned bytes with
      | undefined => rfl
      | invalid | sum n =>
          rw [reply, scan] at replies
          cases replies
    simp only [serve, stored, Option.bind_eq_bind, Option.bind_some, text, scan]
  · exact serve_long size long

end UnixProgramming.Coprocess
