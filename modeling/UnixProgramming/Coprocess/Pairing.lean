import UnixProgramming.Coprocess.Program

/-!
# The answers of the coprocess

At most one line or answer is on its way, so an answer belongs to the last line that has been
written. The invariant follows that line through both processes, and the rank beside it counts
the calls that are left.
-/

namespace UnixProgramming.Coprocess

open CMemory Transition Unp

/-- The line reaches the child, fits into its array, and can be read. -/
def Answers (line answer : Block) : Prop :=
  cString line ≠ [] ∧ (cString line).length < lineSize ∧ reply (cString line) = some answer

/-- The lines that have been answered, and the answers. -/
structure Done (pairs : List (Block × Block)) (stdout : Block) : Prop where
  answers : ∀ p ∈ pairs, Answers p.1 p.2
  shown : stdout = (pairs.map Prod.snd).flatten

/-- What becomes of a line that has been written. -/
inductive Wait (s : State) (line : Block) : Prop
  | sent (toChild : s.toChild = cString line) (toParent : s.toParent = [])
      (child : s.child = .read ∨ s.child = .killed)
  | answering (answer : Block) (answers : Answers line answer) (toChild : s.toChild = [])
      (toParent : s.toParent = []) (child : s.child = .write answer)
  | answered (answer : Block) (answers : Answers line answer) (toChild : s.toChild = [])
      (toParent : s.toParent = answer) (child : s.child = .read ∨ s.child = .killed)
  | lost (toParent : s.toParent = []) (child : s.child = .killed)
  | undefined (some_ : cString line ≠ []) (bad : ∀ answer, ¬ Answers line answer)
      (toParent : s.toParent = []) (child : s.child = .undefined)

/-- At most one line or answer is on its way. -/
inductive Talk (input : Block) (s : State) : Prop
  | idle (pairs : List (Block × Block)) (done : Done pairs s.stdout)
      (lines : fgetsLines (BUFFERSIZE - 1) input =
        pairs.map Prod.fst ++ fgetsLines (BUFFERSIZE - 1) s.stdin)
      (parent : s.parent = .fgets) (toChild : s.toChild = []) (toParent : s.toParent = [])
      (child : s.child = .read ∨ s.child = .killed)
  | sending (pairs : List (Block × Block)) (line : Block) (done : Done pairs s.stdout)
      (lines : fgetsLines (BUFFERSIZE - 1) input =
        pairs.map Prod.fst ++ line :: fgetsLines (BUFFERSIZE - 1) s.stdin)
      (parent : s.parent = .write (cString line)) (toChild : s.toChild = [])
      (toParent : s.toParent = []) (child : s.child = .read ∨ s.child = .killed)
  | waiting (pairs : List (Block × Block)) (line : Block) (done : Done pairs s.stdout)
      (lines : fgetsLines (BUFFERSIZE - 1) input =
        pairs.map Prod.fst ++ line :: fgetsLines (BUFFERSIZE - 1) s.stdin)
      (parent : s.parent = .read) (wait : Wait s line)
  | finished (pairs : List (Block × Block)) (done : Done pairs s.stdout)
      (lines : fgetsLines (BUFFERSIZE - 1) input = pairs.map Prod.fst)
      (parent : s.parent = .exited) (toChild : s.toChild = [])
      (child : s.child = .read ∨ s.child = .killed ∨ s.child = .exited)
  | broken (pairs : List (Block × Block)) (rest : List Block) (printed : Block)
      (done : Done pairs printed) (stdout : s.stdout = printed ++ s.parent.lastLine)
      (lines : fgetsLines (BUFFERSIZE - 1) input = pairs.map Prod.fst ++ rest)
      (parent : s.parent = .sigpipe ∨ s.parent = .returned) (child : s.child = .killed)

structure Inv (input : Block) (s : State) : Prop where
  talk : Talk input s
  size : s.line.length = lineSize

def ParentPc.rank : ParentPc → Nat
  | write _ => 5
  | fgets | read => 1
  | exited | sigpipe | returned => 0

def ChildPc.rank : ChildPc → Nat
  | write _ => 3
  | read => 1
  | exited | killed | undefined => 0

def State.rank (s : State) : Nat :=
  5 * s.stdin.length + s.parent.rank + s.child.rank + (if s.toChild = [] then 0 else 3) +
    (if s.toParent = [] then 0 else 1)

namespace Inv

variable {input : Block} {s s' : State}

theorem init (input : Block) (line : Vector UInt8 lineSize) : Inv input (.init input line) where
  talk := .idle [] ⟨nofun, rfl⟩ rfl rfl rfl rfl (.inl rfl)
  size := line.size_toArray

theorem fgets (inv : Inv input s) (h : s.fgets = some s') : Inv input s' ∧ s'.rank < s.rank := by
  obtain ⟨at_, h⟩ := Option.ite_none_right_eq_some.mp h
  cases inv.talk with
  | sending _ _ _ _ parent | waiting _ _ _ _ parent | finished _ _ _ parent =>
      rw [at_] at parent
      cases parent
  | broken _ _ _ _ _ _ parent =>
      rw [at_] at parent
      obtain gone | gone := parent <;> cases gone
  | idle pairs done lines parent toChild toParent child =>
      by_cases last : s.stdin = []
      · rw [if_pos last] at h
        cases h
        rw [last, fgetsLines_nil, List.append_nil] at lines
        refine ⟨⟨.finished pairs done lines rfl toChild (child.imp_right .inl), inv.size⟩, ?_⟩
        simp [State.rank, at_, ParentPc.rank]
      · rw [if_neg last] at h
        cases h
        have positive : 0 < BUFFERSIZE - 1 := Nat.zero_lt_succ _
        rw [fgetsLines_of_ne positive last] at lines
        have text : (takeLine (BUFFERSIZE - 1) s.stdin ++ [0]).take
            (strlen (takeLine (BUFFERSIZE - 1) s.stdin ++ [0])) =
            cString (takeLine (BUFFERSIZE - 1) s.stdin) := by
          rw [take_strlen, cString_append_nul]
        refine ⟨⟨.sending pairs _ done lines (congrArg ParentPc.write text) toChild toParent child,
          inv.size⟩, ?_⟩
        have shorter := length_dropLine_lt positive last
        simp only [State.rank, at_, ParentPc.rank]
        omega

theorem write (inv : Inv input s) (h : s.write = some s') : Inv input s' ∧ s'.rank < s.rank := by
  unfold State.write at h
  split at h
  · rename_i text at_
    cases inv.talk with
    | idle _ _ _ parent | waiting _ _ _ _ parent | finished _ _ _ parent =>
        rw [at_] at parent
        cases parent
    | broken _ _ _ _ _ _ parent =>
        rw [at_] at parent
        obtain gone | gone := parent <;> cases gone
    | sending pairs line done lines parent toChild toParent child =>
        obtain rfl : text = cString line := by
          rw [at_] at parent
          exact ParentPc.write.inj parent
        by_cases none : cString line = []
        · rw [if_pos none] at h
          cases h
          refine ⟨⟨.waiting pairs line done lines rfl (.sent (toChild.trans none.symm) toParent
            child), inv.size⟩, ?_⟩
          simp only [State.rank, at_, ParentPc.rank]
          omega
        · rw [if_neg none] at h
          by_cases gone : s.child.Ended
          · rw [if_pos gone] at h
            cases h
            have killed : s.child = .killed := by
              obtain read | killed := child
              · rw [read] at gone
                exact gone.elim
              · exact killed
            refine ⟨⟨.broken pairs _ _ done rfl lines (.inl rfl) killed, inv.size⟩, ?_⟩
            simp only [State.rank, at_, ParentPc.rank]
            omega
          · rw [if_neg gone] at h
            cases h
            refine ⟨⟨.waiting pairs line done lines rfl (.sent ?_ toParent child), inv.size⟩, ?_⟩
            · show s.toChild ++ cString line = cString line
              rw [toChild, List.nil_append]
            · simp only [State.rank, at_, ParentPc.rank, toChild, List.nil_append, if_neg none,
                if_true]
              omega
  · cases h

theorem read (inv : Inv input s) (h : s.read = some s') : Inv input s' ∧ s'.rank < s.rank := by
  obtain ⟨at_, h⟩ := Option.ite_none_right_eq_some.mp h
  cases inv.talk with
  | idle _ _ _ parent | sending _ _ _ _ parent | finished _ _ _ parent =>
      rw [at_] at parent
      cases parent
  | broken _ _ _ _ _ _ parent =>
      rw [at_] at parent
      obtain gone | gone := parent <;> cases gone
  | waiting pairs line done lines parent wait =>
      by_cases none : s.toParent = []
      · rw [if_pos none] at h
        obtain ⟨gone, h⟩ := Option.ite_none_right_eq_some.mp h
        cases h
        have killed : s.child = .killed := by
          cases wait with
          | sent _ _ child | answered _ _ _ _ child =>
              obtain read | killed := child
              · rw [read] at gone
                exact gone.elim
              · exact killed
          | answering _ _ _ _ child | undefined _ _ _ child =>
              rw [child] at gone
              exact gone.elim
          | lost _ child => exact child
        refine ⟨⟨.broken pairs _ _ done rfl lines (.inr rfl) killed, inv.size⟩, ?_⟩
        simp only [State.rank, at_, ParentPc.rank]
        omega
      · rw [if_neg none] at h
        cases wait with
        | sent _ empty _ | answering _ _ _ empty _ | lost empty _ | undefined _ _ empty _ =>
            exact absurd empty none
        | answered answer answers toChild toParent child =>
            cases h
            obtain ⟨-, plain, short⟩ := reply_text answers.2.2
            have size : answer.length ≤ BUFFERSIZE := short.le.trans (by decide)
            have taken : cString (s.toParent.take BUFFERSIZE ++ [0]) = answer := by
              rw [toParent, List.take_of_length_le size, cString_append_nul,
                cString_of_notMem plain]
            have left : s.toParent.drop BUFFERSIZE = [] := by
              rw [toParent, List.drop_of_length_le size]
            refine ⟨⟨.idle (pairs ++ [(line, answer)]) ⟨?_, ?_⟩ ?_ rfl toChild left child,
              inv.size⟩, ?_⟩
            · exact List.forall_mem_append.mpr
                ⟨done.answers, List.forall_mem_singleton.mpr answers⟩
            · rw [taken, done.shown]
              simp
            · rw [List.map_append, List.append_assoc]
              exact lines
            · simp only [State.rank, at_, ParentPc.rank, left, if_neg none, if_true]
              omega

/-- What the child does with a line that has come to it. -/
theorem serves (inv : Inv input s) (line : Block) (toChild : s.toChild = cString line)
    (some_ : cString line ≠ []) :
    (∃ line' answer, serve s.line (s.toChild.take readSize) = some (line', answer) ∧
      line'.length = lineSize ∧ Answers line answer ∧ s.toChild.drop readSize = []) ∨
    (serve s.line (s.toChild.take readSize) = none ∧ ∀ answer, ¬ Answers line answer) := by
  have plain : 0 ∉ cString line := take_strlen line ▸ notMem_take_of_le_strlen le_rfl
  obtain short | long := Nat.lt_or_ge (cString line).length lineSize
  · have inside : (cString line).length ≤ readSize := short.le.trans (by decide)
    rw [toChild, List.take_of_length_le inside, List.drop_of_length_le inside]
    cases replies : reply (cString line) with
    | some answer =>
        obtain ⟨line', served, size⟩ := serve_short inv.size plain short replies
        exact .inl ⟨line', answer, served, size, ⟨some_, short, replies⟩, rfl⟩
    | none =>
        refine .inr ⟨serve_undefined inv.size plain replies, fun answer answers => ?_⟩
        rw [answers.2.2] at replies
        cases replies
  · refine .inr ⟨serve_long inv.size ?_, fun answer answers => ?_⟩
    · rw [toChild, List.length_take]
      exact le_min (by decide) long
    · exact absurd answers.2.1 (Nat.not_lt.mpr long)

theorem childRead (inv : Inv input s) (h : s.childRead = some s') :
    Inv input s' ∧ s'.rank < s.rank := by
  obtain ⟨at_, h⟩ := Option.ite_none_right_eq_some.mp h
  have blocked (empty : s.toChild = []) (running : ¬ s.parent.Ended) : False := by
    rw [if_pos empty, if_neg running] at h
    cases h
  cases inv.talk with
  | idle _ _ _ parent toChild _ _ => exact (blocked toChild (by rw [parent]; exact id)).elim
  | sending _ _ _ _ parent toChild _ _ => exact (blocked toChild (by rw [parent]; exact id)).elim
  | broken _ _ _ _ _ _ _ child =>
      rw [at_] at child
      cases child
  | finished pairs done lines parent toChild child =>
      rw [if_pos toChild, if_pos (by rw [parent]; exact trivial)] at h
      cases h
      refine ⟨⟨.finished pairs done lines parent toChild (.inr (.inr rfl)), inv.size⟩, ?_⟩
      simp only [State.rank, at_, ChildPc.rank]
      omega
  | waiting pairs line done lines parent wait =>
      have running : ¬ s.parent.Ended := by
        rw [parent]
        exact id
      cases wait with
      | answering _ _ _ _ child | lost _ child | undefined _ _ _ child =>
          rw [at_] at child
          cases child
      | answered _ _ toChild _ _ => exact (blocked toChild running).elim
      | sent toChild toParent child =>
          by_cases empty : s.toChild = []
          · exact (blocked empty running).elim
          · rw [if_neg empty] at h
            obtain ⟨line', answer, served, size, answers, rest⟩ | ⟨served, bad⟩ :=
              inv.serves line toChild (toChild ▸ empty)
            · rw [served] at h
              cases h
              refine ⟨⟨.waiting pairs line done lines parent
                (.answering answer answers rest toParent rfl), size⟩, ?_⟩
              simp only [State.rank, at_, ChildPc.rank, rest, if_neg empty, if_true]
              omega
            · rw [served] at h
              cases h
              refine ⟨⟨.waiting pairs line done lines parent
                (.undefined (toChild ▸ empty) bad toParent rfl), inv.size⟩, ?_⟩
              simp only [State.rank, at_, ChildPc.rank]
              omega

theorem childWrite (inv : Inv input s) (h : s.childWrite = some s') :
    Inv input s' ∧ s'.rank < s.rank := by
  unfold State.childWrite at h
  split at h
  · rename_i text at_
    have noAnswer (child : s.child = .read ∨ s.child = .killed) : False := by
      rw [at_] at child
      obtain other | other := child <;> cases other
    cases inv.talk with
    | idle _ _ _ _ _ _ child => exact (noAnswer child).elim
    | sending _ _ _ _ _ _ _ child => exact (noAnswer child).elim
    | finished _ _ _ _ _ child =>
        rw [at_] at child
        obtain other | other | other := child <;> cases other
    | broken _ _ _ _ _ _ _ child =>
        rw [at_] at child
        cases child
    | waiting pairs line done lines parent wait =>
        rw [if_neg (by rw [parent]; exact id)] at h
        cases wait with
        | sent _ _ child => exact (noAnswer child).elim
        | answered _ _ _ _ child => exact (noAnswer child).elim
        | lost _ child | undefined _ _ _ child =>
            rw [at_] at child
            cases child
        | answering answer answers toChild toParent child =>
            obtain rfl : text = answer := by
              rw [at_] at child
              exact ChildPc.write.inj child
            cases h
            have moved : s.toParent ++ text = text := by rw [toParent, List.nil_append]
            refine ⟨⟨.waiting pairs line done lines parent
              (.answered text answers toChild moved (.inl rfl)), inv.size⟩, ?_⟩
            simp only [State.rank, at_, ChildPc.rank, toParent, List.nil_append,
              if_neg (reply_text answers.2.2).1, if_true]
            omega
  · cases h

/-- A child that has not ended by itself is killed. -/
theorem kill (inv : Inv input s) (alive : s.child = .read ∨ ∃ text, s.child = .write text) :
    Inv input { s with child := .killed } ∧ { s with child := .killed }.rank < s.rank := by
  have falls : { s with child := .killed }.rank < s.rank := by
    obtain at_ | ⟨text, at_⟩ := alive
    · simp only [State.rank, at_, ChildPc.rank]
      omega
    · simp only [State.rank, at_, ChildPc.rank]
      omega
  refine ⟨⟨?_, inv.size⟩, falls⟩
  cases inv.talk with
  | idle pairs done lines parent toChild toParent child =>
      exact .idle pairs done lines parent toChild toParent (.inr rfl)
  | sending pairs line done lines parent toChild toParent child =>
      exact .sending pairs line done lines parent toChild toParent (.inr rfl)
  | finished pairs done lines parent toChild child =>
      exact .finished pairs done lines parent toChild (.inr (.inl rfl))
  | broken pairs rest printed done stdout lines parent child =>
      exact .broken pairs rest printed done stdout lines parent rfl
  | waiting pairs line done lines parent wait =>
      refine .waiting pairs line done lines parent ?_
      cases wait with
      | sent _ toParent _ => exact .lost toParent rfl
      | answering _ _ _ toParent _ => exact .lost toParent rfl
      | lost toParent _ => exact .lost toParent rfl
      | undefined _ _ toParent _ => exact .lost toParent rfl
      | answered answer answers toChild toParent _ =>
          exact .answered answer answers toChild toParent (.inr rfl)

theorem step {act : Action} (inv : Inv input s) (h : Step s act s') :
    Inv input s' ∧ s'.rank < s.rank := by
  cases act with
  | fgets => exact inv.fgets h
  | write => exact inv.write h
  | read => exact inv.read h
  | childRead => exact inv.childRead h
  | childWrite => exact inv.childWrite h
  | kill =>
      simp only [Step, State.step] at h
      split at h
      · rename_i at_
        cases h
        exact inv.kill (.inl at_)
      · rename_i text at_
        cases h
        exact inv.kill (.inr ⟨text, at_⟩)
      · cases h
      · cases h
      · cases h

/-- An answer is never written to a parent that has gone. -/
theorem reads_of_write {text : Block} (inv : Inv input s) (at_ : s.child = .write text) :
    s.parent = .read := by
  cases inv.talk with
  | waiting _ _ _ _ parent _ => exact parent
  | idle _ _ _ _ _ _ child =>
      rw [at_] at child
      obtain other | other := child <;> cases other
  | sending _ _ _ _ _ _ _ child =>
      rw [at_] at child
      obtain other | other := child <;> cases other
  | finished _ _ _ _ _ child =>
      rw [at_] at child
      obtain other | other | other := child <;> cases other
  | broken _ _ _ _ _ _ _ child =>
      rw [at_] at child
      cases child

theorem alive {act : Action} (inv : Inv input s) (lives : s.child ≠ .killed) (other : act ≠ .kill)
    (h : Step s act s') : s'.child ≠ .killed := by
  cases act with
  | fgets =>
      obtain ⟨-, h⟩ := Option.ite_none_right_eq_some.mp h
      split at h <;> (cases h; exact lives)
  | write =>
      simp only [Step, State.step, State.write] at h
      split at h
      · split at h
        · cases h
          exact lives
        · split at h <;> (cases h; exact lives)
      · cases h
  | read =>
      obtain ⟨-, h⟩ := Option.ite_none_right_eq_some.mp h
      split at h
      · obtain ⟨-, h⟩ := Option.ite_none_right_eq_some.mp h
        cases h
        exact lives
      · cases h
        exact lives
  | childRead =>
      obtain ⟨-, h⟩ := Option.ite_none_right_eq_some.mp h
      split at h
      · obtain ⟨-, h⟩ := Option.ite_none_right_eq_some.mp h
        cases h
        exact nofun
      · split at h <;> (cases h; exact nofun)
  | childWrite =>
      simp only [Step, State.step, State.childWrite] at h
      split at h
      · rename_i text at_
        rw [if_neg (by rw [inv.reads_of_write at_]; exact id)] at h
        cases h
        exact nofun
      · cases h
  | kill => exact absurd rfl other

end Inv

/-- Each line is answered once and in its turn: whatever becomes of the child, what has been
printed is the answers to the first lines, and nothing is on its way while the parent waits for
the next line. Behind the answers only a parent that has found the child gone prints that. -/
theorem paired {input : Block} {line : Vector UInt8 lineSize} {s : State}
    (h : Reachable Step (.init input line) s) :
    ∃ (pairs : List (Block × Block)) (rest : List Block),
      fgetsLines (BUFFERSIZE - 1) input = pairs.map Prod.fst ++ rest ∧
      (∀ p ∈ pairs, Answers p.1 p.2) ∧
      s.stdout = (pairs.map Prod.snd).flatten ++ s.parent.lastLine ∧
      (s.parent = .fgets → s.toChild = [] ∧ s.toParent = []) := by
  have inv : Inv input s := h.invariant (.init input line) fun _ _ _ inv hstep => (inv.step hstep).1
  have shown {pairs : List (Block × Block)} (done : Done pairs s.stdout)
      (silent : s.parent.lastLine = []) :
      s.stdout = (pairs.map Prod.snd).flatten ++ s.parent.lastLine := by
    rw [silent, List.append_nil]
    exact done.shown
  cases inv.talk with
  | idle pairs done lines parent toChild toParent _ =>
      exact ⟨pairs, _, lines, done.answers, shown done (by rw [parent]; rfl),
        fun _ => ⟨toChild, toParent⟩⟩
  | sending pairs line done lines parent toChild toParent _ =>
      exact ⟨pairs, _, lines, done.answers, shown done (by rw [parent]; rfl),
        fun _ => ⟨toChild, toParent⟩⟩
  | waiting pairs line done lines parent _ =>
      refine ⟨pairs, _, lines, done.answers, shown done (by rw [parent]; rfl), fun at_ => ?_⟩
      rw [parent] at at_
      cases at_
  | finished pairs done lines parent _ _ =>
      refine ⟨pairs, [], by rw [lines, List.append_nil], done.answers,
        shown done (by rw [parent]; rfl), fun at_ => ?_⟩
      rw [parent] at at_
      cases at_
  | broken pairs rest printed done stdout lines parent _ =>
      refine ⟨pairs, rest, lines, done.answers, done.shown ▸ stdout, fun at_ => ?_⟩
      rw [at_] at parent
      obtain other | other := parent <;> cases other

/-- The child is killed in front of its first call. -/
theorem paired_killed :
    ∃ s, Reachable Step (.init [49, 32, 50, 10] (Vector.replicate lineSize 0)) s ∧
      s.parent = .returned ∧ ∃ (pairs : List (Block × Block)) (rest : List Block),
        fgetsLines (BUFFERSIZE - 1) [49, 32, 50, 10] = pairs.map Prod.fst ++ rest ∧
        s.stdout = (pairs.map Prod.snd).flatten ++ ascii "child close pipe\r\n" := by
  have run : ∃ s, Steps Step (.init [49, 32, 50, 10] (Vector.replicate lineSize 0))
      [.fgets, .write, .kill, .read] s ∧ s.parent = .returned :=
    ⟨_, Steps.of_foldlM_option rfl, rfl⟩
  obtain ⟨s, steps, returned⟩ := run
  obtain ⟨pairs, rest, lines, -, shown, -⟩ := paired ⟨_, steps⟩
  rw [returned] at shown
  exact ⟨s, ⟨_, steps⟩, returned, pairs, rest, lines, shown⟩

end UnixProgramming.Coprocess
