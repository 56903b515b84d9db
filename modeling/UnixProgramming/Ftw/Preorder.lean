import UnixProgramming.Ftw.Dopath

/-!
# The preorder walk that `dopath` is meant to be

The calls for a tree are a list, with each directory in front of what is in it, and the walk goes
through the list up to the first call whose result is not zero. `dopath` goes another way at the
first directory for which `ret` does not hold by chance what makes its comparison come out right,
and then no later call can make up for it: the two walks have made different calls, or one of
them is behind the end of the other, or they return different values.
-/

namespace UnixProgramming.Ftw

open CMemory

/-- The calls for the entries of a directory. -/
def preorderAll (visit : Block → Option (List Call)) (dir : Block) :
    List Block → Option (List Call)
  | [] => some []
  | name :: names =>
      if isDot name then preorderAll visit dir names
      else do
        let first ← visit (dir ++ name)
        let rest ← preorderAll visit dir names
        return first ++ rest

/-- The calls for the tree at a path. It has a value for the trees that are not deeper than
`depth`. -/
def preorder (sys : Sys) : Nat → Block → Option (List Call)
  | 0, _ => none
  | depth + 1, path =>
      match sys.lstat path with
      | none => some [⟨path, none, .ns⟩]
      | some mode =>
          if ¬ isDir mode then some [⟨path, some mode, .f⟩]
          else
            let dir := path ++ [slash]
            match sys.opendir dir with
            | none => some [⟨path, some mode, .d⟩, ⟨dir, some mode, .dnr⟩]
            | some names =>
                (⟨path, some mode, .d⟩ :: ·) <$> preorderAll (preorder sys depth) dir names

/-- The callback is called for the list, up to the first result that is not zero. -/
def untilNonzero (func : List Call → Int) : List Call → List Call → Int × List Call
  | done, [] => (0, done)
  | done, c :: cs =>
      if func (done ++ [c]) ≠ 0 then (func (done ++ [c]), done ++ [c])
      else untilNonzero func (done ++ [c]) cs

/-- A directory that can be read and has nothing in it. -/
def Empty (sys : Sys) (path : Block) : Prop :=
  ∃ names, sys.opendir (path ++ [slash]) = some names ∧ ∀ name ∈ names, isDot name

/-- `ret` happens to hold what makes the comparison with the result `v` come out right. -/
def RetFits (sys : Sys) (path : Block) (v : Int) : Prop :=
  if v ≠ 0 then sys.ret path = v else (sys.ret path = 0 ↔ Empty sys path)

/-- `ret` fits in all directories up to the first result that is not zero. -/
def RetsFit (sys : Sys) : List Call → List Call → Prop
  | _, [] => True
  | done, c :: cs =>
      (c.type = .d → RetFits sys c.path (sys.func (done ++ [c]))) ∧
        (sys.func (done ++ [c]) = 0 → RetsFit sys (done ++ [c]) cs)

/-! ## The list of the calls -/

section Scan

variable {func : List Call → Int} {sys : Sys}

/-- What has been called stays in front, and without a call the value is zero. -/
theorem untilNonzero_calls (func : List Call → Int) (done cs : List Call) :
    ∃ more, (untilNonzero func done cs).2 = done ++ more ∧
      (more = [] → (untilNonzero func done cs).1 = 0) := by
  induction cs generalizing done with
  | nil => exact ⟨[], by simp [untilNonzero], fun _ => rfl⟩
  | cons c cs ih =>
      rw [untilNonzero]
      split
      · exact ⟨[c], rfl, by simp⟩
      · obtain ⟨more, calls, -⟩ := ih (done ++ [c])
        refine ⟨c :: more, ?_, by simp⟩
        rw [calls, List.append_assoc, List.singleton_append]

theorem untilNonzero_cons_calls (func : List Call → Int) (done cs : List Call) (c : Call) :
    ∃ more, (untilNonzero func done (c :: cs)).2 = done ++ c :: more := by
  rw [untilNonzero]
  split
  · exact ⟨[], rfl⟩
  · obtain ⟨more, calls, -⟩ := untilNonzero_calls func (done ++ [c]) cs
    exact ⟨more, by rw [calls, List.append_assoc, List.singleton_append]⟩

theorem untilNonzero_append (done xs ys : List Call) :
    untilNonzero func done (xs ++ ys) =
      if (untilNonzero func done xs).1 ≠ 0 then untilNonzero func done xs
      else untilNonzero func (untilNonzero func done xs).2 ys := by
  induction xs generalizing done with
  | nil => simp [untilNonzero]
  | cons c xs ih =>
      rw [List.cons_append, untilNonzero, untilNonzero]
      by_cases stop : func (done ++ [c]) ≠ 0
      · rw [if_pos stop, if_pos stop, if_pos stop]
      · rw [if_neg stop, if_neg stop, ih]

theorem retsFit_append (done xs ys : List Call) :
    RetsFit sys done (xs ++ ys) ↔ RetsFit sys done xs ∧
      ((untilNonzero sys.func done xs).1 = 0 →
        RetsFit sys (untilNonzero sys.func done xs).2 ys) := by
  induction xs generalizing done with
  | nil => simp [untilNonzero, RetsFit]
  | cons c xs ih =>
      rw [List.cons_append, RetsFit, RetsFit, untilNonzero, ih]
      by_cases stop : sys.func (done ++ [c]) ≠ 0
      · simp [stop]
      · simp only [if_neg stop]
        rw [not_not] at stop
        simp only [stop, true_imp_iff, and_assoc]

end Scan

section Preorder

variable {sys : Sys} {depth : Nat} {path dir : Block} {cs : List Call}

/-- A tree begins with its own path. -/
theorem preorder_head (tree : preorder sys depth path = some cs) :
    ∃ c rest, cs = c :: rest ∧ c.path = path := by
  cases depth with
  | zero => cases tree
  | succ depth =>
      rw [preorder] at tree
      cases stat : sys.lstat path with
      | none =>
          rw [stat] at tree
          cases tree
          exact ⟨_, _, rfl, rfl⟩
      | some mode =>
          rw [stat] at tree
          dsimp only at tree
          split at tree
          · cases tree
            exact ⟨_, _, rfl, rfl⟩
          · split at tree
            · cases tree
              exact ⟨_, _, rfl, rfl⟩
            · obtain ⟨rest, -, rfl⟩ := Option.map_eq_some_iff.mp tree
              exact ⟨_, _, rfl, rfl⟩

theorem preorderAll_cons {visit : Block → Option (List Call)} {name : Block} {names : List Block}
    (notDot : ¬ isDot name) (below : preorderAll visit dir (name :: names) = some cs) :
    ∃ first rest, visit (dir ++ name) = some first ∧ preorderAll visit dir names = some rest ∧
      cs = first ++ rest := by
  rw [preorderAll, if_neg notDot] at below
  obtain ⟨first, here, below⟩ := Option.bind_eq_some_iff.mp below
  obtain ⟨rest, later, same⟩ := Option.bind_eq_some_iff.mp below
  exact ⟨first, rest, here, later, (Option.some.inj same).symm⟩

theorem preorderAll_dot {visit : Block → Option (List Call)} {name : Block} {names : List Block}
    (dot : isDot name) : preorderAll visit dir (name :: names) = preorderAll visit dir names := by
  rw [preorderAll, if_pos dot]

/-- The calls for the entries begin in the directory, unless it is empty. -/
theorem preorderAll_head {names : List Block}
    (below : preorderAll (preorder sys depth) dir names = some cs) :
    (cs = [] ∧ ∀ name ∈ names, isDot name) ∨
      ∃ c rest, cs = c :: rest ∧ dir <+: c.path ∧ ¬ ∀ name ∈ names, isDot name := by
  induction names generalizing cs with
  | nil =>
      cases below
      exact .inl ⟨rfl, by simp⟩
  | cons name names ih =>
      by_cases dot : isDot name
      · rw [preorderAll_dot dot] at below
        simpa [dot] using ih below
      · obtain ⟨first, rest, here, -, rfl⟩ := preorderAll_cons dot below
        obtain ⟨c, more, rfl, at_⟩ := preorder_head here
        exact .inr ⟨c, more ++ rest, rfl, at_ ▸ List.prefix_append dir name, by simp [dot]⟩

end Preorder

/-! ## Walks that have come apart -/

/-- The values and calls `r` and `s` cannot become equal again, whatever `dopath` goes on with in
a directory around `dir`. In the last case `dopath` has skipped something in `dir`. -/
inductive Off (dir : Block) (r s : Int × List Call) : Prop
  | differ {common xs ys : List Call} {a b : Call} (ne : a ≠ b) (left : r.2 = common ++ a :: xs)
      (right : s.2 = common ++ b :: ys)
  | longer {a : Call} {xs : List Call} (stopped : s.1 ≠ 0) (left : r.2 = s.2 ++ a :: xs)
  | shorter {b : Call} {ys : List Call} (returned : r.1 ≠ 0) (right : s.2 = r.2 ++ b :: ys)
  | value (ne : r.1 ≠ s.1) (same : r.2 = s.2)
  | skipped {b : Call} {ys : List Call} (zero : r.1 = 0) (inside : dir <+: b.path)
      (right : s.2 = r.2 ++ b :: ys)

theorem Off.ne {dir : Block} {r s : Int × List Call} (off : Off dir r s) : r ≠ s := by
  rintro rfl
  cases off with
  | differ ne left right =>
      have same := List.append_cancel_left (left.symm.trans right)
      exact ne (List.cons.inj same).1
  | longer stopped left => simp at left
  | shorter returned right => simp at right
  | value ne same => exact ne rfl
  | skipped zero inside right => simp at right

/-- Calls that have come apart stay apart when others follow. -/
theorem calls_append {l l' common xs xs' : List Call} {a : Call} (here : l = common ++ a :: xs)
    (more : l' = l ++ xs') : l' = common ++ a :: (xs ++ xs') := by
  rw [more, here, List.append_assoc, List.cons_append]

theorem exists_calls_ite {r next : Int × List Call} (more : ∃ xs, next.2 = r.2 ++ xs) :
    ∃ xs, (if r.1 ≠ 0 then r else next).2 = r.2 ++ xs := by
  split
  · exact ⟨[], (List.append_nil _).symm⟩
  · exact more

/-- The same calls with different results: one of the walks goes on, or both have stopped. -/
theorem Off.next_value {dir : Block} {r s next final : Int × List Call} {more : List Call}
    (ne : r.1 ≠ s.1) (same : r.2 = s.2)
    (going : next = (0, r.2) ∨ ∃ c xs, next.2 = r.2 ++ c :: xs)
    (finalCalls : final.2 = s.2 ++ more) (finalValue : more = [] → final.1 = 0) :
    Off dir (if r.1 ≠ 0 then r else next) (if s.1 ≠ 0 then s else final) := by
  by_cases returned : r.1 ≠ 0
  · rw [if_pos returned]
    by_cases stopped : s.1 ≠ 0
    · rw [if_pos stopped]
      exact .value ne same
    · rw [if_neg stopped]
      cases more with
      | nil =>
          rw [List.append_nil] at finalCalls
          refine .value ?_ (same.trans finalCalls.symm)
          rw [finalValue rfl]
          exact returned
      | cons b ys => exact .shorter returned (by rw [finalCalls, same])
  · have stopped : s.1 ≠ 0 := by
      rw [not_not] at returned
      rw [← returned]
      exact Ne.symm ne
    rw [if_neg returned, if_pos stopped]
    obtain rfl | ⟨c, xs, calls⟩ := going
    · exact .value (Ne.symm stopped) same
    · exact .longer stopped (by rw [calls, same])

/-- Calls below an entry are skipped: the walk goes on at the next entry, which is not in the
directory that was skipped. -/
theorem Off.next_skipped {dir name : Block} {b : Call} {ys : List Call}
    {r next final : Int × List Call} (inside : dir ++ name ++ [slash] <+: b.path)
    (going : next = (0, r.2) ∨ ∃ name' c xs, slash ∉ name' ∧ c.path = dir ++ name' ∧
      next.2 = r.2 ++ c :: xs)
    (finalCalls : final.2 = r.2 ++ b :: ys) : Off dir next final := by
  obtain rfl | ⟨name', c, xs, noSlash, path, calls⟩ := going
  · refine .skipped rfl (List.IsPrefix.trans ?_ inside) finalCalls
    rw [List.append_assoc]
    exact List.prefix_append dir _
  · refine .differ ?_ calls finalCalls
    rintro rfl
    rw [path, List.append_assoc, List.prefix_append_right_inj] at inside
    obtain ⟨rest, rfl⟩ := inside
    simp at noSlash

/-- The calls for one entry of a directory have come apart. `next` is what `dopath` makes of the
rest of the directory, and `final` is what the preorder walk makes of it. -/
theorem Off.next {dir name : Block} {r s next final : Int × List Call}
    (off : Off (dir ++ name ++ [slash]) r s)
    (going : next = (0, r.2) ∨ ∃ name' c xs, slash ∉ name' ∧ c.path = dir ++ name' ∧
      next.2 = r.2 ++ c :: xs)
    (goal : ∃ more, final.2 = s.2 ++ more ∧ (more = [] → final.1 = 0)) :
    Off dir (if r.1 ≠ 0 then r else next) (if s.1 ≠ 0 then s else final) := by
  obtain ⟨more, finalCalls, finalValue⟩ := goal
  have ahead : ∃ xs, next.2 = r.2 ++ xs := by
    obtain rfl | ⟨name', c, xs, -, -, calls⟩ := going
    · exact ⟨[], (List.append_nil _).symm⟩
    · exact ⟨_, calls⟩
  obtain ⟨xs', nextCalls⟩ := exists_calls_ite ahead
  obtain ⟨ys', goalCalls⟩ := exists_calls_ite ⟨more, finalCalls⟩
  cases off with
  | differ ne left right =>
      exact .differ ne (calls_append left nextCalls) (calls_append right goalCalls)
  | longer stopped left =>
      rw [if_pos stopped]
      exact .longer stopped (calls_append left nextCalls)
  | shorter returned right =>
      rw [if_pos returned]
      exact .shorter returned (calls_append right goalCalls)
  | value ne same =>
      apply Off.next_value ne same ?_ finalCalls finalValue
      obtain stays | ⟨name', c, xs, -, -, calls⟩ := going
      · exact .inl stays
      · exact .inr ⟨c, xs, calls⟩
  | skipped zero inside right =>
      rw [if_neg (not_not.mpr zero)]
      exact .next_skipped inside going (calls_append right goalCalls)

/-- A walk of `dopath` against the preorder walk of the same calls. -/
def Agrees (sys : Sys) (dir : Block) (done cs : List Call) (r : Int × List Call) : Prop :=
  RetsFit sys done cs ∧ r = untilNonzero sys.func done cs ∨
    ¬ RetsFit sys done cs ∧ Off dir r (untilNonzero sys.func done cs)

section Compare

variable {sys : Sys} {depth : Nat} {path dir : Block} {cs : List Call}

/-- What is said of the calls for every tree of the depth. -/
def TreesAgree (sys : Sys) (depth : Nat) : Prop :=
  ∀ path cs done, preorder sys depth path = some cs →
    ∃ r, walk sys depth path done = some r ∧ (∃ c xs, c.path = path ∧ r.2 = done ++ c :: xs) ∧
      Agrees sys (path ++ [slash]) done cs r

/-- One entry and the rest of its directory. -/
theorem Agrees.next {name : Block} {done first rest : List Call} {r next : Int × List Call}
    (child : Agrees sys (dir ++ name ++ [slash]) done first r)
    (later : rest = [] ∧ next = (0, r.2) ∨
      (∃ name' c xs, slash ∉ name' ∧ c.path = dir ++ name' ∧ next.2 = r.2 ++ c :: xs) ∧
        Agrees sys dir r.2 rest next) :
    Agrees sys dir done (first ++ rest) (if r.1 ≠ 0 then r else next) := by
  rw [Agrees, retsFit_append, untilNonzero_append]
  obtain ⟨fits, rfl⟩ | ⟨misfit, off⟩ := child
  · by_cases stopped : (untilNonzero sys.func done first).1 ≠ 0
    · rw [if_pos stopped, if_pos stopped]
      exact .inl ⟨⟨fits, fun zero => absurd zero stopped⟩, rfl⟩
    · rw [if_neg stopped, if_neg stopped]
      rw [not_not] at stopped
      simp only [fits, stopped, true_imp_iff, true_and]
      obtain ⟨rfl, rfl⟩ | ⟨-, agrees⟩ := later
      · exact .inl ⟨trivial, rfl⟩
      · exact agrees
  · refine .inr ⟨fun whole => misfit whole.1, off.next ?_ (untilNonzero_calls _ _ _)⟩
    obtain ⟨-, ended⟩ | ⟨going, -⟩ := later
    · exact .inl ended
    · exact .inr going

theorem walkLoop_agrees (trees : TreesAgree sys depth) {names : List Block}
    (noSlash : ∀ name ∈ names, slash ∉ name)
    (below : preorderAll (preorder sys depth) dir names = some cs) (ret : Int)
    (done : List Call) :
    (∀ name ∈ names, isDot name) ∧ cs = [] ∧
        walkLoop (walk sys depth) dir names ret done = some (ret, done) ∨
      (¬ ∀ name ∈ names, isDot name) ∧ ∃ r, walkLoop (walk sys depth) dir names ret done = some r ∧
        (∃ name c xs, slash ∉ name ∧ c.path = dir ++ name ∧ r.2 = done ++ c :: xs) ∧
        Agrees sys dir done cs r := by
  induction names generalizing ret done cs with
  | nil =>
      cases below
      exact .inl ⟨by simp, rfl, rfl⟩
  | cons name names ih =>
      have noSlash' : ∀ name ∈ names, slash ∉ name :=
        fun other mem => noSlash other (List.mem_cons_of_mem name mem)
      rw [walkLoop]
      by_cases dot : isDot name
      · rw [preorderAll_dot dot] at below
        rw [if_pos dot]
        simpa [dot] using ih noSlash' below ret done
      · obtain ⟨first, rest, here, behind, rfl⟩ := preorderAll_cons dot below
        obtain ⟨r, child, ⟨c, xs, at_, calls⟩, agrees⟩ := trees _ first done here
        rw [if_neg dot, child, Option.bind_eq_bind, Option.bind_some]
        dsimp only
        refine .inr ⟨by simp [dot], ?_⟩
        -- `next` is what the rest gives when the entry has the value zero
        obtain ⟨next, going, later⟩ : ∃ next,
            walkLoop (walk sys depth) dir names 0 r.2 = some next ∧
            (rest = [] ∧ next = (0, r.2) ∨
              (∃ name' c xs, slash ∉ name' ∧ c.path = dir ++ name' ∧ next.2 = r.2 ++ c :: xs) ∧
                Agrees sys dir r.2 rest next) := by
          obtain ⟨-, nothing, ended⟩ | ⟨-, next, going, began, later⟩ := ih noSlash' behind 0 r.2
          · exact ⟨_, ended, .inl ⟨nothing, rfl⟩⟩
          · exact ⟨next, going, .inr ⟨began, later⟩⟩
        refine ⟨if r.1 ≠ 0 then r else next, ?_, ⟨name, c, ?_⟩, agrees.next later⟩
        · by_cases stopped : r.1 ≠ 0
          · rw [if_pos stopped, if_pos stopped]
          · rw [if_neg stopped, if_neg stopped, not_not.mp stopped]
            exact going
        · have calls' : ∃ xs', (if r.1 ≠ 0 then r else next).2 = r.2 ++ xs' := by
            split
            · exact ⟨[], (List.append_nil _).symm⟩
            · obtain ⟨-, rfl⟩ | ⟨⟨-, c', xs', -, -, more⟩, -⟩ := later
              · exact ⟨[], (List.append_nil _).symm⟩
              · exact ⟨_, more⟩
          obtain ⟨xs', calls'⟩ := calls'
          refine ⟨xs ++ xs', noSlash name List.mem_cons_self, at_, ?_⟩
          rw [calls', calls, List.append_assoc, List.cons_append]

theorem empty_iff {names : List Block} (listing : sys.opendir (path ++ [slash]) = some names) :
    Empty sys path ↔ ∀ name ∈ names, isDot name := by
  simp [Empty, listing]

theorem not_empty (closed : sys.opendir (path ++ [slash]) = none) : ¬ Empty sys path := by
  simp [Empty, closed]

theorem Agrees.single {done : List Call} {c : Call} (plain : c.type ≠ .d) :
    Agrees sys dir done [c] (sys.func (done ++ [c]), done ++ [c]) := by
  refine .inl ⟨⟨fun type => absurd type plain, fun _ => trivial⟩, ?_⟩
  rw [untilNonzero]
  split
  · rfl
  · rename_i zero
    rw [not_not.mp zero, untilNonzero]

/-- A directory where `ret` is equal to the value of the callback, so that `dopath` returns. -/
theorem agrees_of_eq {done below : List Call} {mode : Option Mode}
    (luck : sys.ret path = sys.func (done ++ [⟨path, mode, .d⟩]))
    (inside : below = [] ∧ Empty sys path ∨
      ∃ b ys, below = b :: ys ∧ path ++ [slash] <+: b.path ∧ ¬ Empty sys path) :
    Agrees sys (path ++ [slash]) done (⟨path, mode, .d⟩ :: below)
      (sys.ret path, done ++ [⟨path, mode, .d⟩]) := by
  rw [Agrees, RetsFit, untilNonzero, ← luck, RetFits]
  by_cases stop : sys.ret path ≠ 0
  · rw [if_pos stop, if_pos stop]
    exact .inl ⟨⟨fun _ => rfl, fun zero => absurd zero stop⟩, rfl⟩
  · rw [if_neg stop, if_neg stop]
    rw [not_not] at stop
    simp only [stop, true_iff, true_imp_iff]
    obtain ⟨rfl, empty⟩ | ⟨b, ys, rfl, ahead, full⟩ := inside
    · exact .inl ⟨⟨empty, trivial⟩, rfl⟩
    · obtain ⟨more, calls⟩ := untilNonzero_cons_calls sys.func
        (done ++ [⟨path, mode, .d⟩]) ys b
      exact .inr ⟨fun fits => full fits.1, .skipped rfl ahead calls⟩

/-- A directory where `ret` is not equal to the value of the callback, so that it is read. -/
theorem agrees_of_ne {done below : List Call} {mode : Option Mode} {r : Int × List Call}
    (differs : sys.ret path ≠ sys.func (done ++ [⟨path, mode, .d⟩]))
    (inside : Empty sys path ∧ below = [] ∧ r = (sys.ret path, done ++ [⟨path, mode, .d⟩]) ∨
      ¬ Empty sys path ∧ (∃ b ys, r.2 = done ++ [⟨path, mode, .d⟩] ++ b :: ys) ∧
        Agrees sys (path ++ [slash]) (done ++ [⟨path, mode, .d⟩]) below r) :
    Agrees sys (path ++ [slash]) done (⟨path, mode, .d⟩ :: below) r := by
  rw [Agrees, RetsFit, untilNonzero, RetFits]
  by_cases stop : sys.func (done ++ [⟨path, mode, .d⟩]) ≠ 0
  · -- the preorder walk is over
    rw [if_pos stop, if_pos stop]
    refine .inr ⟨fun fits => differs (fits.1 rfl), ?_⟩
    obtain ⟨-, -, rfl⟩ | ⟨-, ⟨b, ys, calls⟩, -⟩ := inside
    · exact .value differs rfl
    · exact .longer stop calls
  · rw [if_neg stop, if_neg stop]
    rw [not_not] at stop
    rw [stop] at differs
    simp only [stop, differs, false_iff, true_imp_iff]
    obtain ⟨empty, rfl, rfl⟩ | ⟨full, -, agrees⟩ := inside
    · exact .inr ⟨fun fits => fits.1 empty, .value differs rfl⟩
    · simpa [full, Agrees] using agrees

/-- A directory that cannot be read. -/
theorem unreadable_agrees (visit : Block → List Call → Option (Int × List Call)) (mode : Mode)
    (done : List Call) (closed : sys.opendir (path ++ [slash]) = none) :
    ∃ r, (if sys.ret path = sys.func (done ++ [⟨path, some mode, .d⟩]) then
        some (sys.ret path, done ++ [⟨path, some mode, .d⟩])
      else walkDirectory sys visit path mode (done ++ [⟨path, some mode, .d⟩])) = some r ∧
      (∃ xs, r.2 = done ++ ⟨path, some mode, .d⟩ :: xs) ∧
      Agrees sys (path ++ [slash]) done
        [⟨path, some mode, .d⟩, ⟨path ++ [slash], some mode, .dnr⟩] r := by
  have full := not_empty closed
  rw [walkDirectory, closed]
  split
  · rename_i luck
    exact ⟨_, rfl, ⟨[], rfl⟩, agrees_of_eq luck (.inr ⟨_, _, rfl, List.prefix_rfl, full⟩)⟩
  · rename_i differs
    refine ⟨_, rfl, ⟨[_], List.append_assoc _ _ _⟩, agrees_of_ne differs ?_⟩
    exact .inr ⟨full, ⟨_, [], rfl⟩, .single (by simp)⟩

/-- A directory that can be read. -/
theorem readable_agrees (trees : TreesAgree sys depth) (mode : Mode) (done : List Call)
    {names : List Block} (listing : sys.opendir (path ++ [slash]) = some names)
    (contents : preorderAll (preorder sys depth) (path ++ [slash]) names = some cs) :
    ∃ r, (if sys.ret path = sys.func (done ++ [⟨path, some mode, .d⟩]) then
        some (sys.ret path, done ++ [⟨path, some mode, .d⟩])
      else walkDirectory sys (walk sys depth) path mode (done ++ [⟨path, some mode, .d⟩])) =
        some r ∧
      (∃ xs, r.2 = done ++ ⟨path, some mode, .d⟩ :: xs) ∧
      Agrees sys (path ++ [slash]) done (⟨path, some mode, .d⟩ :: cs) r := by
  rw [walkDirectory, listing]
  split
  · rename_i luck
    refine ⟨_, rfl, ⟨[], rfl⟩, agrees_of_eq luck ?_⟩
    rw [empty_iff listing]
    obtain ⟨nothing, dots⟩ | ⟨b, ys, split, inside, full⟩ := preorderAll_head contents
    · exact .inl ⟨nothing, dots⟩
    · exact .inr ⟨b, ys, split, inside, full⟩
  · rename_i differs
    have noSlash : ∀ name ∈ names, slash ∉ name :=
      fun name mem => (sys.names _ _ listing name mem).2.1
    obtain ⟨dots, rfl, ended⟩ | ⟨full, r, went, ⟨-, c, xs, -, -, calls⟩, agrees⟩ :=
      walkLoop_agrees trees noSlash contents (sys.ret path) (done ++ [⟨path, some mode, .d⟩])
    · refine ⟨_, ended, ⟨[], rfl⟩, agrees_of_ne differs ?_⟩
      exact .inl ⟨(empty_iff listing).mpr dots, rfl, rfl⟩
    · refine ⟨r, went, ⟨c :: xs, ?_⟩, ?_⟩
      · rw [calls, List.append_assoc, List.singleton_append]
      · refine agrees_of_ne differs (.inr ⟨?_, ⟨c, xs, calls⟩, agrees⟩)
        rwa [empty_iff listing]

/-- Each tree is walked in preorder if `ret` fits, and has come apart if it does not. -/
theorem treesAgree (sys : Sys) (depth : Nat) : TreesAgree sys depth := by
  induction depth with
  | zero =>
      intro path cs done tree
      cases tree
  | succ depth ih =>
      intro path cs done tree
      rw [preorder] at tree
      rw [walk]
      cases stat : sys.lstat path with
      | none =>
          rw [stat] at tree
          cases tree
          exact ⟨_, rfl, ⟨_, [], rfl, rfl⟩, .single (by simp)⟩
      | some mode =>
          rw [stat] at tree
          dsimp only at tree ⊢
          by_cases dir : isDir mode
          · rw [if_neg (not_not.mpr dir)] at tree ⊢
            cases listing : sys.opendir (path ++ [slash]) with
            | none =>
                rw [listing] at tree
                cases tree
                obtain ⟨r, went, ⟨xs, calls⟩, agrees⟩ :=
                  unreadable_agrees (walk sys depth) mode done listing
                exact ⟨r, went, ⟨_, xs, rfl, calls⟩, agrees⟩
            | some names =>
                rw [listing] at tree
                obtain ⟨below, contents, rfl⟩ := Option.map_eq_some_iff.mp tree
                obtain ⟨r, went, ⟨xs, calls⟩, agrees⟩ :=
                  readable_agrees ih mode done listing contents
                exact ⟨r, went, ⟨_, xs, rfl, calls⟩, agrees⟩
          · rw [if_pos dir] at tree ⊢
            cases tree
            exact ⟨_, rfl, ⟨_, [], rfl, rfl⟩, .single (by simp)⟩

end Compare

/-- `dopath` on a tree calls the callback for each path in preorder, up to the first value that is
not zero, and returns that value, or zero, if and only if `ret` fits in each directory up to
there. -/
theorem dopath_right_iff {sys : Sys} {depth : Nat} {buf path : Block} {cs : List Call}
    (tree : preorder sys depth path = some cs) (holds : Holds buf path) :
    ∃ ret s, dopath sys depth ⟨buf, []⟩ = .ok (ret, s) ∧
      ((ret, s.calls) = untilNonzero sys.func [] cs ↔ RetsFit sys [] cs) := by
  obtain ⟨r, went, -, agrees⟩ := treesAgree sys depth path cs [] tree
  obtain ⟨buf', run, -⟩ := dopath_refines went holds
  refine ⟨_, _, run, ?_⟩
  obtain ⟨fits, same⟩ | ⟨misfit, off⟩ := agrees
  · exact iff_of_true same fits
  · exact iff_of_false off.ne misfit

/-- The directory `d` with the file `f`, and a callback that always returns zero. -/
def oneFile (ret : Int) : Sys where
  lstat path :=
    if path = [100] then some S_IFDIR
    else if path = [100, slash, 102] then some Kind.reg.mode else none
  opendir path := if path = [100, slash] then some [[46], [46, 46], [102]] else none
  names := by
    intro dir names listing
    split at listing
    · cases listing
      decide
    · cases listing
  func _ := 0
  ret _ := ret
  junk := 0

/-- With another value in `ret`, both calls are made. -/
theorem dopath_right_oneFile :
    ∃ ret s, dopath (oneFile 7) 2 ⟨100 :: 0 :: List.replicate 255 0, []⟩ = .ok (ret, s) ∧
      (ret, s.calls) = (0, [⟨[100], some S_IFDIR, .d⟩,
        ⟨[100, slash, 102], some Kind.reg.mode, .f⟩]) := by
  have size : (100 :: 0 :: List.replicate 255 (0 : UInt8)).length = NAME_MAX + 2 := by
    rw [List.length_cons, List.length_cons, List.length_replicate, NAME_MAX]
  have holds : Holds (100 :: 0 :: List.replicate 255 0) [100] :=
    ⟨by decide, ⟨_, rfl⟩, size.ge⟩
  have tree : preorder (oneFile 7) 2 [100] = some [⟨[100], some S_IFDIR, .d⟩,
      ⟨[100, slash, 102], some Kind.reg.mode, .f⟩] := rfl
  obtain ⟨ret, s, run, right⟩ := dopath_right_iff tree holds
  have full : ¬ Empty (oneFile 7) [100] := by
    have listing : (oneFile 7).opendir ([100] ++ [slash]) = some [[46], [46, 46], [102]] := rfl
    rw [empty_iff listing]
    decide
  have fits : RetFits (oneFile 7) [100] 0 := by
    rw [RetFits, if_neg (by simp)]
    exact iff_of_false (by decide) full
  refine ⟨ret, s, run, right.mpr ⟨fun _ => fits, fun _ => ?_⟩⟩
  exact ⟨fun type => absurd type (by decide), fun _ => trivial⟩

/-- With zero in `ret`, the file is not visited. -/
theorem dopath_skips_file :
    ∃ cs s, preorder (oneFile 0) 2 [100] = some cs ∧
      dopath (oneFile 0) 2 ⟨100 :: 0 :: List.replicate 255 0, []⟩ = .ok (0, s) ∧
      s.calls = [⟨[100], some S_IFDIR, .d⟩] ∧
      (0, s.calls) ≠ untilNonzero (oneFile 0).func [] cs :=
  ⟨_, _, rfl, rfl, rfl, by decide⟩

end UnixProgramming.Ftw
