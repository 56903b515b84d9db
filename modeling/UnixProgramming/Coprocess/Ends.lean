import UnixProgramming.Coprocess.Pairing

/-!
# How the coprocess ends

The runs in which the child is not killed.
-/

namespace UnixProgramming.Coprocess

open CMemory Transition Unp

def NoKill (_ : State) (act : Action) : Prop := act ≠ .kill

theorem ranked (input : Block) :
    Ranked (Guarded NoKill Step) (fun s => Inv input s ∧ s.child ≠ .killed) State.rank where
  keeps _ _ _ inv h := ⟨(inv.1.step h.2).1, inv.1.alive inv.2 h.1 h.2⟩
  falls _ _ _ inv h := (inv.1.step h.2).2

/-- How the two end. Behind the last line both exit. A line that begins with a NUL does not reach
the child, and both wait for ever. -/
inductive Outcome (input : Block) (s : State) : Prop
  | finished (pairs : List (Block × Block)) (done : Done pairs s.stdout)
      (lines : fgetsLines (BUFFERSIZE - 1) input = pairs.map Prod.fst)
      (parent : s.parent = .exited) (child : s.child = .exited)
  | refused (pairs : List (Block × Block)) (line : Block) (rest : List Block)
      (done : Done pairs s.stdout)
      (lines : fgetsLines (BUFFERSIZE - 1) input = pairs.map Prod.fst ++ line :: rest)
      (bad : ∀ answer, ¬ Answers line answer) (parent : s.parent = .read)
      (why : cString line = [] ∧ s.child = .read ∨ cString line ≠ [] ∧ s.child = .undefined)

theorem outcome {input : Block} {s : State} (inv : Inv input s) (alive : s.child ≠ .killed)
    (stuck : Stuck (Guarded NoKill Step) s) : Outcome input s := by
  have none (act : Action) (other : act ≠ .kill) : s.step act = none :=
    Option.eq_none_iff_forall_ne_some.mpr fun s' h => stuck act s' ⟨other, h⟩
  cases inv.talk with
  | idle pairs done lines parent toChild toParent child =>
      have goesOn := none .fgets (by decide)
      rw [State.step, State.fgets, if_pos parent] at goesOn
      split at goesOn <;> cases goesOn
  | sending pairs line done lines parent toChild toParent child =>
      have goesOn := none .write (by decide)
      simp only [State.step, State.write, parent] at goesOn
      split at goesOn
      · cases goesOn
      · split at goesOn <;> cases goesOn
  | broken _ _ _ _ _ _ _ child => exact absurd child alive
  | finished pairs done lines parent toChild child =>
      refine .finished pairs done lines parent ?_
      obtain reads | killed | exited := child
      · have goesOn := none .childRead (by decide)
        rw [State.step, State.childRead, if_pos reads, if_pos toChild,
          if_pos (by rw [parent]; exact trivial)] at goesOn
        cases goesOn
      · exact absurd killed alive
      · exact exited
  | waiting pairs line done lines parent wait =>
      cases wait with
      | lost _ child => exact absurd child alive
      | undefined some_ bad _ child =>
          exact .refused pairs line _ done lines bad parent (.inr ⟨some_, child⟩)
      | answering answer _ _ _ child =>
          have goesOn := none .childWrite (by decide)
          simp only [State.step, State.childWrite, child] at goesOn
          split at goesOn <;> cases goesOn
      | answered answer answers _ toParent _ =>
          have goesOn := none .read (by decide)
          rw [State.step, State.read, if_pos parent,
            if_neg (toParent ▸ (reply_text answers.2.2).1)] at goesOn
          cases goesOn
      | sent toChild _ child =>
          have reads : s.child = .read := child.resolve_right alive
          have empty : s.toChild = [] := by
            by_contra some_
            have goesOn := none .childRead (by decide)
            rw [State.step, State.childRead, if_pos reads, if_neg some_] at goesOn
            split at goesOn <;> cases goesOn
          have text : cString line = [] := toChild.symm.trans empty
          exact .refused pairs line _ done lines (fun answer answers => answers.1 text) parent
            (.inl ⟨text, reads⟩)

theorem inv_of_run {input : Block} {line : Vector UInt8 lineSize} {as : List Action} {s : State}
    (run : Steps (Guarded NoKill Step) (.init input line) as s) :
    Inv input s ∧ s.child ≠ .killed :=
  run.invariant (I := fun s => Inv input s ∧ s.child ≠ .killed) (ranked input).keeps
    ⟨.init input line, nofun⟩

/-- Where the child is not killed, the two come to an end. Both exit behind the last line exactly
if every line is answered. Else the first line that is not answered begins with a NUL, and both
wait for ever, or it leaves `add2` undefined. -/
theorem coprocess_ends {input : Block} {line : Vector UInt8 lineSize} {as : List Action}
    {s : State} (run : Steps (Guarded NoKill Step) (.init input line) as s) :
    as.length ≤ 5 * input.length + 2 ∧
    (Stuck (Guarded NoKill Step) s →
      (s.parent = .exited ↔
        ∀ line ∈ fgetsLines (BUFFERSIZE - 1) input, ∃ answer, Answers line answer) ∧
      (s.parent = .exited → s.child = .exited) ∧
      (s.parent ≠ .exited → ∃ (pairs : List (Block × Block)) (line : Block) (rest : List Block),
        fgetsLines (BUFFERSIZE - 1) input = pairs.map Prod.fst ++ line :: rest ∧
        (∀ p ∈ pairs, Answers p.1 p.2) ∧ (∀ answer, ¬ Answers line answer) ∧
        s.parent = .read ∧
        (cString line = [] ∧ s.child = .read ∨ cString line ≠ [] ∧ s.child = .undefined))) := by
  obtain ⟨inv, alive⟩ := inv_of_run run
  constructor
  · have bound := (ranked input).length_le run ⟨.init input line, nofun⟩
    have initial : (State.init input line).rank = 5 * input.length + 2 := rfl
    omega
  · intro stuck
    cases outcome inv alive stuck with
    | finished pairs done lines parent child =>
        refine ⟨⟨fun _ line mem => ?_, fun _ => parent⟩, fun _ => child,
          fun other => absurd parent other⟩
        rw [lines] at mem
        obtain ⟨p, pair, rfl⟩ := List.mem_map.mp mem
        exact ⟨p.2, done.answers p pair⟩
    | refused pairs line rest done lines bad parent why =>
        have waits : s.parent ≠ .exited := by
          rw [parent]
          exact nofun
        refine ⟨⟨fun exited => absurd exited waits, fun all => ?_⟩,
          fun exited => absurd exited waits,
          fun _ => ⟨pairs, line, rest, lines, done.answers, bad, parent, why⟩⟩
        obtain ⟨answer, answers⟩ := all line (lines ▸ List.mem_append_right _ List.mem_cons_self)
        exact absurd answers (bad answer)

/-- A line with a NUL at its start. -/
theorem coprocess_ends_nul :
    ∃ as s, Steps (Guarded NoKill Step) (.init [0, 10] (Vector.replicate lineSize 0)) as s ∧
      Stuck (Guarded NoKill Step) s ∧ s.parent = .read := by
  obtain ⟨as, s, run, stuck⟩ :=
    (ranked [0, 10]).exists_stuck ⟨.init _ (Vector.replicate lineSize 0), nofun⟩
  obtain ⟨exits, -, waits⟩ := (coprocess_ends run).2 stuck
  have mem : ([0, 10] : Block) ∈ fgetsLines (BUFFERSIZE - 1) [0, 10] := by
    have positive : 0 < BUFFERSIZE - 1 := Nat.zero_lt_succ _
    rw [fgetsLines_of_ne positive (List.cons_ne_nil _ _)]
    exact List.mem_cons_self
  have running : s.parent ≠ .exited := by
    intro exited
    obtain ⟨answer, answers⟩ := exits.mp exited _ mem
    exact answers.1 rfl
  obtain ⟨pairs, line, rest, -, -, -, reads, -⟩ := waits running
  exact ⟨as, s, run, stuck, reads⟩

/-! ## Sums -/

/-- Two numbers as the user types them, without the newline. -/
def question (p : Int × Int) : Block := decimal p.1 ++ 32 :: decimal p.2

def sumText (p : Int × Int) : Block := decimal (p.1 + p.2) ++ [newline]

/-- Both numbers and their sum are of type `int`. -/
def InRange (p : Int × Int) : Prop := FitsInt p.1 ∧ FitsInt p.2 ∧ FitsInt (p.1 + p.2)

theorem scanned_question {p : Int × Int} (range : InRange p) :
    scanned (question p ++ [newline]) = .sum (p.1 + p.2) := by
  have first :
      scanInt (question p ++ [newline]) = some (p.1, 32 :: (decimal p.2 ++ [newline])) := by
    have text : question p ++ [newline] =
        [] ++ (decimal p.1 ++ 32 :: (decimal p.2 ++ [newline])) := by simp [question]
    rw [text]
    exact scanInt_decimal p.1 nofun (by simp [Stops]; rfl)
  have second : scanInt (32 :: (decimal p.2 ++ [newline])) = some (p.2, [newline]) :=
    @scanInt_decimal p.2 [32] [newline] (by simp [isSpace]) (by simp [Stops]; rfl)
  rw [scanned, first]
  simp only [not_true, range.1, if_false, second, range.2.1, range.2.2, and_self, if_true]

/-- The characters of a question are printable. -/
theorem notMem_question {c : UInt8} (control : ¬ 32 ≤ c) (p : Int × Int) : c ∉ question p := by
  have printable (n : Int) (mem : c ∈ decimal n) : 32 ≤ c :=
    UInt8.le_trans (by decide) (decimal_printable n c mem)
  rw [question, List.mem_append, List.mem_cons]
  rintro (number | rfl | number)
  · exact control (printable p.1 number)
  · exact control (by decide)
  · exact control (printable p.2 number)

theorem length_question {p : Int × Int} (range : InRange p) : (question p).length ≤ 23 := by
  have first := length_decimal_int range.1
  have second := length_decimal_int range.2.1
  rw [question, List.length_append, List.length_cons]
  omega

theorem answers_question {p : Int × Int} (range : InRange p) :
    Answers (question p ++ [newline]) (sumText p) := by
  have plain : 0 ∉ question p ++ [newline] := by
    rw [List.mem_append, not_or]
    exact ⟨notMem_question (by decide) p, by decide⟩
  have short := length_question range
  rw [Answers, cString_of_notMem plain]
  refine ⟨by simp, ?_, ?_⟩
  · rw [List.length_append, List.length_singleton, lineSize]
    omega
  · rw [reply, scanned_question range]
    rfl

theorem Answers.unique {line answer answer' : Block} (h : Answers line answer)
    (h' : Answers line answer') : answer = answer' :=
  Option.some.inj (h.2.2.symm.trans h'.2.2)

theorem answers_all {problems : List (Int × Int)} (range : ∀ p ∈ problems, InRange p)
    {pairs : List (Block × Block)}
    (asked : pairs.map Prod.fst = problems.map fun p => question p ++ [newline])
    (answers : ∀ p ∈ pairs, Answers p.1 p.2) : pairs.map Prod.snd = problems.map sumText := by
  induction problems generalizing pairs with
  | nil =>
      obtain rfl : pairs = [] := List.map_eq_nil_iff.mp asked
      rfl
  | cons p problems ih =>
      obtain ⟨pair, pairs, rfl⟩ : ∃ pair rest, pairs = pair :: rest := by
        cases pairs with
        | nil => cases asked
        | cons pair pairs => exact ⟨pair, pairs, rfl⟩
      obtain ⟨first, later⟩ := List.cons.inj asked
      have here := answers pair List.mem_cons_self
      rw [first] at here
      rw [List.map_cons, List.map_cons,
        here.unique (answers_question (range p List.mem_cons_self)),
        ih (fun q mem => range q (List.mem_cons_of_mem p mem)) later
          fun q mem => answers q (List.mem_cons_of_mem pair mem)]

/-- The sums that are asked for are printed, each on a line of its own, in the order of the
questions. -/
theorem coprocess_adds {problems : List (Int × Int)} (range : ∀ p ∈ problems, InRange p)
    {line : Vector UInt8 lineSize} {as : List Action} {s : State}
    (run : Steps (Guarded NoKill Step)
      (.init (problems.map fun p => question p ++ [newline]).flatten line) as s)
    (stuck : Stuck (Guarded NoKill Step) s) :
    s.parent = .exited ∧ s.child = .exited ∧ s.stdout = (problems.map sumText).flatten := by
  obtain ⟨inv, alive⟩ := inv_of_run run
  have each : ∀ text ∈ problems.map question, newline ∉ text ∧ text.length < BUFFERSIZE - 1 := by
    intro text mem
    obtain ⟨p, problem, rfl⟩ := List.mem_map.mp mem
    have short := length_question (range p problem)
    exact ⟨notMem_question (by decide) p, short.trans_lt (by decide)⟩
  have questions := fgetsLines_flatten each
  rw [List.map_map] at questions
  have lines : fgetsLines (BUFFERSIZE - 1)
      (problems.map fun p => question p ++ [newline]).flatten =
      problems.map fun p => question p ++ [newline] := questions
  cases outcome inv alive stuck with
  | finished pairs done asked parent child =>
      rw [done.shown, answers_all range (asked.symm.trans lines) done.answers]
      exact ⟨parent, child, rfl⟩
  | refused pairs text rest done asked bad parent why =>
      rw [lines] at asked
      have mem : text ∈ problems.map fun p => question p ++ [newline] := by
        rw [asked]
        exact List.mem_append_right _ List.mem_cons_self
      obtain ⟨p, problem, rfl⟩ := List.mem_map.mp mem
      exact absurd (answers_question (range p problem)) (bad _)

theorem coprocess_adds_two :
    ∃ as s, Steps (Guarded NoKill Step)
      (.init ([(2, 3), (-1, 1)].map fun p => question p ++ [newline]).flatten
        (Vector.replicate lineSize 0)) as s ∧
      s.parent = .exited ∧ s.stdout = [53, 10, 48, 10] := by
  obtain ⟨as, s, run, stuck⟩ :=
    (ranked _).exists_stuck ⟨.init _ (Vector.replicate lineSize 0), nofun⟩
  have range : ∀ p ∈ ([(2, 3), (-1, 1)] : List (Int × Int)), InRange p := by
    simp [InRange, FitsInt]
  obtain ⟨exited, -, sums⟩ := coprocess_adds range run stuck
  exact ⟨as, s, run, exited, sums.trans (by decide)⟩

end UnixProgramming.Coprocess
