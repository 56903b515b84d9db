import UnixProgramming.Ttyname.Follows
import UnixProgramming.Ttyname.Tree

/-!
# `ttyname_m` finds the terminal

In a finite tree with short paths, the list that `ttyname_m` walks has the directories in the
order of a worklist, and the buffer holds the path of each entry, apart from a `..` that may have
become a `.`. So the search ends, it goes through each directory at most once, and it finds an
entry with the device if there is one. `searchdir` skips its three names before it looks whether
they are directories, so that nothing below them is found.
-/

namespace UnixProgramming.Ttyname

open CMemory Fallible
open Ftw (isDir isDot slash NAME_MAX S_IFDIR)

/-- The paths that the search does not follow. -/
def passedOver : List Block := devFd :: aliases

/-- The directories that have been scanned. -/
def scanned (trace : List Event) : List Block :=
  trace.filterMap fun
    | .opendir dir => some dir
    | _ => none

theorem scanned_append (trace more : List Event) :
    scanned (trace ++ more) = scanned trace ++ scanned more :=
  List.filterMap_append

/-- The buffer can hold the paths, and the byte behind them is zero. -/
def Clean (sys : Sys) (trace : List Event) : Prop :=
  Fits sys true trace ∧ clearAfter sys true trace = true

section Clean

variable {sys : Sys} {trace : List Event} {dir : Block}

theorem Clean.strncpy (clean : Clean sys trace) (count : Int) :
    Clean sys (trace ++ [.strncpy count]) :=
  ⟨(fits_concat _).mpr ⟨clean.1, trivial⟩, (clearAfter_concat _ _).trans clean.2⟩

theorem Clean.stat {name path : Block} (clean : Clean sys trace) (inside : dir.length < 255)
    (short : path.length ≤ POSIX_PATH_MAX) : Clean sys (trace ++ [.stat dir name path]) := by
  refine ⟨(fits_concat _).mpr ⟨clean.1, ?_, short, fun _ => clean.2⟩,
    (clearAfter_concat _ _).trans clean.2⟩
  simp only [POSIX_PATH_MAX]
  omega

theorem Clean.opendir (clean : Clean sys trace) (inside : dir.length < 255) :
    Clean sys (trace ++ [.opendir dir]) := by
  refine ⟨(fits_concat _).mpr ⟨clean.1, trivial⟩, ?_⟩
  have notFull : dir.length ≠ POSIX_PATH_MAX := by
    simp only [POSIX_PATH_MAX]
    omega
  have notLast : dir.length + 1 ≠ POSIX_PATH_MAX := by
    simp only [POSIX_PATH_MAX]
    omega
  rw [clearAfter_concat, Event.clear, if_neg notFull, if_neg notLast]
  exact clean.2

end Clean

section Entries

variable {sys : Sys} {fdstat : Stat} {all : List Block} {dir name : Block} {names : List Block}
  {w : Plan}

theorem cutAt_of_short (short : (join dir name).length < 255) :
    cutAt (some POSIX_PATH_MAX) (join dir name) = join dir name := by
  apply List.take_of_length_le
  simp only [POSIX_PATH_MAX]
  omega

/-- What is left of the path of `.` or `..` is one of these two. -/
theorem cutAt_dot (dot : isDot name) (short : dir.length < 255) :
    ∃ name', isDot name' ∧ cutAt (some POSIX_PATH_MAX) (join dir name) = join dir name' := by
  by_cases whole : (join dir name).length ≤ POSIX_PATH_MAX
  · exact ⟨name, dot, List.take_of_length_le whole⟩
  · obtain rfl | rfl := dot
    · rw [length_join] at whole
      simp only [POSIX_PATH_MAX, List.length_singleton] at whole
      omega
    · refine ⟨[46], .inl rfl, ?_⟩
      have front : (join dir [46]).length = POSIX_PATH_MAX := by
        rw [length_join] at whole ⊢
        simp only [POSIX_PATH_MAX, List.length_cons, List.length_nil] at whole ⊢
        omega
      have split : join dir [46, 46] = join dir [46] ++ [46] := by simp [join]
      rw [cutAt, split, List.take_left' front]

/-- What the search makes of one entry: it is the terminal, or the search goes on behind it. -/
def Entered (sys : Sys) (fdstat : Stat) (dir name : Block) (names : List Block) (w : Plan)
    (result : Option Block × Plan) : Prop :=
  ∃ w', Clean sys w'.trace ∧ scanned w'.trace = scanned w.trace ∧
    (Matches sys fdstat dir name ∧ result = (some (join dir name), w') ∨
      ¬ Matches sys fdstat dir name ∧
        result = planEntries sys fdstat (some POSIX_PATH_MAX) dir names w' ∧
        w'.dirs = w.dirs ++ if Followed sys passedOver dir name then [join dir name] else [])

/-- An entry behind which the list of directories is the same. -/
theorem Entered.pass {w' : Plan} (clean : Clean sys w'.trace)
    (same : scanned w'.trace = scanned w.trace) (dirs : w'.dirs = w.dirs)
    (noMatch : ¬ Matches sys fdstat dir name)
    (notFollowed : ¬ Followed sys passedOver dir name) :
    Entered sys fdstat dir name names w
      (planEntries sys fdstat (some POSIX_PATH_MAX) dir names w') := by
  refine ⟨w', clean, same, .inr ⟨noMatch, rfl, ?_⟩⟩
  rw [if_neg notFollowed, List.append_nil]
  exact dirs

theorem scanned_strncpy (trace : List Event) (count : Int) :
    scanned (trace ++ [.strncpy count]) = scanned trace := by
  rw [scanned_append]
  exact List.append_nil _

theorem scanned_stat (trace : List Event) (dir name path : Block) :
    scanned (trace ++ [.stat dir name path]) = scanned trace := by
  rw [scanned_append]
  exact List.append_nil _

/-- For `.` and `..` nothing but the trace changes. -/
theorem planEntries_dot (names : List Block) (tree : FiniteTree sys passedOver all)
    (reach : Reachable sys passedOver dir) (dot : isDot name) (clean : Clean sys w.trace) :
    Entered sys fdstat dir name names w
      (planEntries sys fdstat (some POSIX_PATH_MAX) dir (name :: names) w) := by
  have inside := tree.short_dir reach
  obtain ⟨name', dot', cut⟩ := cutAt_dot dot inside
  obtain ⟨st, stat, below⟩ := tree.dots dir reach name' dot'
  have noMatch : ¬ Matches sys fdstat dir name :=
    not_matches_of_isDirectory (tree.dots dir reach name dot)
  have notFollowed : ¬ Followed sys passedOver dir name := fun followed => followed.1 dot
  have short : (join dir name').length ≤ POSIX_PATH_MAX := cut ▸ List.length_take_le _ _
  have clean₁ := clean.strncpy (room dir)
  have scanned₁ := scanned_strncpy w.trace (room dir)
  rw [planEntries, cut]
  dsimp only
  by_cases skip : isAlias (join dir name')
  · rw [if_pos skip]
    exact .pass clean₁ scanned₁ rfl noMatch notFollowed
  · obtain ⟨nonempty, noSlash⟩ := valid_of_isDot dot'
    have dots : endsInDot (join dir name') := (endsInDot_join_iff nonempty noSlash).mpr dot'
    rw [if_neg skip, stat]
    dsimp only
    rw [if_pos below, Plan.add, if_pos dots]
    exact .pass (clean₁.stat inside short) ((scanned_stat _ _ _ _).trans scanned₁) rfl noMatch
      notFollowed

/-- Every other entry is a name that is skipped, a subdirectory, or a file. -/
theorem planEntries_plain (names : List Block) (tree : FiniteTree sys passedOver all)
    (memory : ∀ k, sys.malloc k = true) (reach : Reachable sys passedOver dir)
    (here : name ∈ (sys.opendir dir).getD []) (notDot : ¬ isDot name)
    (clean : Clean sys w.trace) :
    Entered sys fdstat dir name names w
      (planEntries sys fdstat (some POSIX_PATH_MAX) dir (name :: names) w) := by
  have short := tree.short dir reach name here notDot
  obtain ⟨st, stat⟩ := Option.isSome_iff_exists.mp (tree.stats dir reach name here)
  have clean₁ := clean.strncpy (room dir)
  have scanned₁ := scanned_strncpy w.trace (room dir)
  have shorter : (join dir name).length ≤ POSIX_PATH_MAX := by
    simp only [POSIX_PATH_MAX]
    omega
  have clean₂ : Clean sys (w.trace ++ [.strncpy (room dir)] ++ [.stat dir name (join dir name)]) :=
    clean₁.stat (tree.short_dir reach) shorter
  have scanned₂ := (scanned_stat (w.trace ++ [.strncpy (room dir)]) dir name (join dir name)).trans
    scanned₁
  rw [planEntries, cutAt_of_short short]
  dsimp only
  by_cases skip : isAlias (join dir name)
  · rw [if_pos skip]
    refine .pass clean₁ scanned₁ rfl (fun isMatch => isMatch.2.1 skip) ?_
    exact fun followed => followed.2.1 (List.mem_cons_of_mem _ skip)
  · rw [if_neg skip, stat]
    dsimp only
    by_cases below : isDir st.stMode
    · have noMatch : ¬ Matches sys fdstat dir name := not_matches_of_isDirectory ⟨st, stat, below⟩
      obtain ⟨nonempty, noSlash⟩ := valid_of_mem here
      have notDots : ¬ endsInDot (join dir name) :=
        (endsInDot_join_iff nonempty noSlash).not.mpr notDot
      rw [if_pos below, Plan.add, if_neg notDots]
      by_cases fd : join dir name = devFd
      · rw [if_pos fd]
        refine .pass clean₂ scanned₂ rfl noMatch ?_
        exact fun followed => followed.2.1 (fd ▸ List.mem_cons_self)
      · have followed : Followed sys passedOver dir name := by
          refine ⟨notDot, fun mem => ?_, st, stat, below⟩
          obtain same | mem := List.mem_cons.mp mem
          · exact fd same
          · exact skip mem
        rw [if_neg fd, if_neg (not_not.mpr (memory _))]
        refine ⟨_, clean₂, scanned₂, .inr ⟨noMatch, rfl, ?_⟩⟩
        rw [if_pos followed]
        rfl
    · rw [if_neg below]
      by_cases same : st.sameDevice fdstat
      · rw [if_pos same]
        exact ⟨_, clean₂, scanned₂, .inl ⟨⟨here, skip, st, stat, below, same⟩, rfl⟩⟩
      · rw [if_neg same]
        refine .pass clean₂ scanned₂ rfl ?_ ?_
        · rintro ⟨-, -, st', stat', -, same'⟩
          rw [stat] at stat'
          cases stat'
          exact same same'
        · rintro ⟨-, -, st', stat', below'⟩
          rw [stat] at stat'
          cases stat'
          exact below below'

theorem planEntries_step (names : List Block) (tree : FiniteTree sys passedOver all)
    (memory : ∀ k, sys.malloc k = true) (reach : Reachable sys passedOver dir)
    (here : name ∈ (sys.opendir dir).getD []) (clean : Clean sys w.trace) :
    Entered sys fdstat dir name names w
      (planEntries sys fdstat (some POSIX_PATH_MAX) dir (name :: names) w) := by
  by_cases dot : isDot name
  · exact planEntries_dot names tree reach dot clean
  · exact planEntries_plain names tree memory reach here dot clean

theorem planEntries_tree (tree : FiniteTree sys passedOver all)
    (memory : ∀ k, sys.malloc k = true) (reach : Reachable sys passedOver dir)
    (sub : ∀ name ∈ names, name ∈ (sys.opendir dir).getD []) (clean : Clean sys w.trace) :
    ∃ found w', planEntries sys fdstat (some POSIX_PATH_MAX) dir names w = (found, w') ∧
      Clean sys w'.trace ∧ scanned w'.trace = scanned w.trace ∧
      ((∃ name, Matches sys fdstat dir name ∧ found = some (join dir name)) ∨
        found = none ∧ (∀ name ∈ names, ¬ Matches sys fdstat dir name) ∧
          w'.dirs = w.dirs ++
            (names.filter fun name => Followed sys passedOver dir name).map (join dir)) := by
  induction names generalizing w with
  | nil => exact ⟨none, w, rfl, clean, rfl, .inr ⟨rfl, by simp, by simp⟩⟩
  | cons name names ih =>
      have later : ∀ name ∈ names, name ∈ (sys.opendir dir).getD [] :=
        fun other mem => sub other (List.mem_cons_of_mem name mem)
      obtain ⟨w₁, clean₁, scanned₁, ⟨isMatch, step⟩ | ⟨noMatch, step, dirs₁⟩⟩ :=
        planEntries_step names tree memory reach (sub name List.mem_cons_self) clean
      · exact ⟨_, w₁, step, clean₁, scanned₁, .inl ⟨name, isMatch, rfl⟩⟩
      · obtain ⟨found, w₂, run, clean₂, scanned₂, result⟩ := ih later clean₁
        refine ⟨found, w₂, step.trans run, clean₂, scanned₂.trans scanned₁, ?_⟩
        obtain isMatch | ⟨nothing, noMatches, dirs₂⟩ := result
        · exact .inl isMatch
        · refine .inr ⟨nothing, ?_, ?_⟩
          · intro other mem
            obtain rfl | mem := List.mem_cons.mp mem
            · exact noMatch
            · exact noMatches other mem
          · rw [dirs₂, dirs₁, List.append_assoc]
            by_cases followed : Followed sys passedOver dir name <;> simp [followed]

/-- What the search makes of a directory that it gets to. -/
theorem planDir_tree (fdstat : Stat) (tree : FiniteTree sys passedOver all)
    (memory : ∀ k, sys.malloc k = true) (reach : Reachable sys passedOver dir)
    (clean : Clean sys w.trace) :
    ∃ found w', planDir sys fdstat (some POSIX_PATH_MAX) dir w = (found, w') ∧
      Clean sys w'.trace ∧ scanned w'.trace = scanned w.trace ++ [dir] ∧
      ((∃ name, Matches sys fdstat dir name ∧ found = some (join dir name)) ∨
        found = none ∧ (∀ name, ¬ Matches sys fdstat dir name) ∧
          w'.dirs = w.dirs ++ subdirs sys passedOver dir) := by
  obtain ⟨names, listing⟩ := Option.isSome_iff_exists.mp (tree.opens dir reach)
  have entries : (sys.opendir dir).getD [] = names := by
    rw [listing]
    rfl
  have opened : Clean sys (w.log (.opendir dir)).trace := clean.opendir (tree.short_dir reach)
  obtain ⟨found, w', run, clean', scanned', result⟩ := planEntries_tree tree memory reach
    (fun name mem => by rw [entries]; exact mem) opened
  refine ⟨found, w', ?_, clean', ?_, ?_⟩
  · rw [planDir, listing]
    exact run
  · rw [scanned', Plan.log, scanned_append]
    rfl
  · obtain isMatch | ⟨nothing, noMatches, dirs⟩ := result
    · exact .inl isMatch
    · refine .inr ⟨nothing, ?_, ?_⟩
      · intro name isMatch
        exact noMatches name (entries ▸ isMatch.1) isMatch
      · rw [dirs, subdirs, entries]
        rfl

end Entries

/-! ## The list of directories -/

/-- The search has been through `n` directories and has found nothing. -/
structure Walked (sys : Sys) (fdstat : Stat) (n : Nat) (w : Plan) : Prop where
  clean : Clean sys w.trace
  list : dev :: w.dirs = Worklist.after (subdirs sys passedOver) [dev] n
  scanned : scanned w.trace = Worklist.processed (subdirs sys passedOver) [dev] n
  noMatch : ∀ dir ∈ Worklist.processed (subdirs sys passedOver) [dev] n, ∀ name,
    ¬ Matches sys fdstat dir name

/-- How a search ends that has been long enough. -/
structure Outcome (sys : Sys) (fdstat : Stat) (found : Option (Option Block)) (w : Plan) :
    Prop where
  clean : Clean sys w.trace
  scanned : ∃ n, scanned w.trace = Worklist.processed (subdirs sys passedOver) [dev] n
  result : (∃ dir name, Reachable sys passedOver dir ∧ Matches sys fdstat dir name ∧
      found = some (some (join dir name))) ∨
    found = some none ∧ ∀ dir, Reachable sys passedOver dir → ∀ name, ¬ Matches sys fdstat dir name

section List

variable {sys : Sys} {fdstat : Stat} {all : List Block} {n rounds : Nat} {w : Plan} {dir : Block}

theorem walked_zero (sys : Sys) (fdstat : Stat) : Walked sys fdstat 0 ⟨[], []⟩ where
  clean := ⟨trivial, rfl⟩
  list := rfl
  scanned := rfl
  noMatch := by simp [Worklist.processed]

/-- The next directory on the list. -/
theorem Walked.step (walked : Walked sys fdstat n w) (tree : FiniteTree sys passedOver all)
    (memory : ∀ k, sys.malloc k = true)
    (item : (Worklist.after (subdirs sys passedOver) [dev] n)[n]? = some dir) :
    ∃ found w', planDir sys fdstat (some POSIX_PATH_MAX) dir w = (found, w') ∧
      ((∃ path, found = some path ∧ Outcome sys fdstat (some (some path)) w') ∨
        found = none ∧ Walked sys fdstat (n + 1) w') := by
  have reach : Reachable sys passedOver dir :=
    Worklist.reach_of_mem_after (List.mem_of_getElem? item)
  obtain ⟨found, w', run, clean', scanned', result⟩ :=
    planDir_tree fdstat tree memory reach walked.clean
  rw [walked.scanned, ← Worklist.processed_succ item] at scanned'
  refine ⟨found, w', run, ?_⟩
  obtain ⟨name, isMatch, rfl⟩ | ⟨rfl, noMatches, dirs⟩ := result
  · exact .inl ⟨_, rfl, clean', ⟨_, scanned'⟩, .inl ⟨dir, name, reach, isMatch, rfl⟩⟩
  · refine .inr ⟨rfl, clean', ?_, scanned', ?_⟩
    · rw [dirs, Worklist.after_succ item, ← walked.list, List.cons_append]
    · intro dir' mem
      rw [Worklist.processed_succ item] at mem
      obtain old | new := List.mem_append.mp mem
      · exact walked.noMatch dir' old
      · obtain rfl := List.mem_singleton.mp new
        exact noMatches

/-- When the list has come to its end, there is no match. -/
theorem Walked.outcome (walked : Walked sys fdstat n w)
    (done : (Worklist.after (subdirs sys passedOver) [dev] n)[n]? = none) :
    Outcome sys fdstat (some none) w where
  clean := walked.clean
  scanned := ⟨n, walked.scanned⟩
  result := .inr ⟨rfl, fun dir reach => walked.noMatch dir
    (Worklist.mem_processed_of_reach done reach)⟩

theorem planList_tree (tree : FiniteTree sys passedOver all) (memory : ∀ k, sys.malloc k = true)
    (walked : Walked sys fdstat (n + 1) w) (enough : all.length ≤ n + 1 + rounds) :
    Outcome sys fdstat (planList sys fdstat (some POSIX_PATH_MAX) rounds n w).1
      (planList sys fdstat (some POSIX_PATH_MAX) rounds n w).2 := by
  have position : w.dirs[n]? =
      (Worklist.after (subdirs sys passedOver) [dev] (n + 1))[n + 1]? := by
    rw [← walked.list, List.getElem?_cons_succ]
  induction rounds generalizing n w with
  | zero =>
      have done := (worklistTree sys passedOver).done tree.finite enough
      rw [done] at position
      rw [planList, position]
      exact walked.outcome done
  | succ rounds ih =>
      cases item : (Worklist.after (subdirs sys passedOver) [dev] (n + 1))[n + 1]? with
      | none =>
          rw [item] at position
          rw [planList, position]
          exact walked.outcome item
      | some dir =>
          rw [item] at position
          obtain ⟨found, w', run, result⟩ := walked.step tree memory item
          rw [planList, position]
          dsimp only
          rw [run]
          obtain ⟨path, rfl, outcome⟩ | ⟨rfl, walked'⟩ := result
          · exact outcome
          · have position' : w'.dirs[n + 1]? =
                (Worklist.after (subdirs sys passedOver) [dev] (n + 2))[n + 2]? := by
              rw [← walked'.list, List.getElem?_cons_succ]
            exact ih walked' (by omega) position'

theorem planAll_tree (tree : FiniteTree sys passedOver all) (memory : ∀ k, sys.malloc k = true)
    (enough : all.length ≤ rounds) :
    Outcome sys fdstat (planAll sys fdstat (some POSIX_PATH_MAX) rounds).1
      (planAll sys fdstat (some POSIX_PATH_MAX) rounds).2 := by
  obtain ⟨found, w', run, result⟩ := (walked_zero sys fdstat).step tree memory rfl
  rw [planAll, run]
  obtain ⟨path, rfl, outcome⟩ | ⟨rfl, walked⟩ := result
  · exact outcome
  · exact planList_tree tree memory walked (by omega)

end List

/-- What `ttyname_m` has done for a tree: `skip` are the paths that it may pass over. -/
structure Complete (sys : Sys) (skip : List Block) (fdstat : Stat) (found : Bool) (s : Search) :
    Prop where
  reachable : ∀ dir ∈ scanned s.trace, Reachable sys skip dir
  once : (scanned s.trace).Nodup
  found_iff : found = true ↔ ∃ dir name, Reachable sys skip dir ∧ Matches sys fdstat dir name
  path : found = true → ∃ dir name, Reachable sys skip dir ∧ Matches sys fdstat dir name ∧
    readString s.pathname = .ok (join dir name)
  head : s.head = none
  tail : s.tail = none

/-- `ttyname_m` returns what the search without the buffer finds, if that search ends. -/
theorem ttynameM_of_planAll {sys : Sys} {fdstat : Stat} {rounds : Nat} {s : Search}
    {found : Option Block} (tty : sys.isatty = true) (stat : sys.fstat = some fdstat)
    (chr : isChr fdstat.stMode) (start : Start true s)
    (fits : Fits sys true (planAll sys fdstat (some POSIX_PATH_MAX) rounds).2.trace)
    (value : (planAll sys fdstat (some POSIX_PATH_MAX) rounds).1 = some found) :
    ∃ s', ttynameM sys rounds s = .ok (some found.isSome, s') ∧ s'.head = none ∧ s'.tail = none ∧
      s'.trace = (planAll sys fdstat (some POSIX_PATH_MAX) rounds).2.trace ∧
      ∀ path, found = some path → readString s'.pathname = .ok path := by
  have wide : ∀ k ∈ some POSIX_PATH_MAX, POSIX_PATH_MAX ≤ k := by simp
  obtain ⟨s₁, more, ran, tracks, read⟩ | ⟨misfit, -⟩ :=
    @searchAll_follows sys fdstat (some POSIX_PATH_MAX) true s wide rounds start
  · obtain ⟨s₂, cleaned, head, tail, pathname, trace⟩ := cleanup_represents tracks.list
    rw [value] at ran read
    refine ⟨s₂, ?_, head, tail, trace.trans tracks.trace, ?_⟩
    · rw [ttynameM_eq tty stat chr, ran, ok_bind, Option.map_some]
      dsimp only
      rw [cleaned]
      rfl
    · intro path isFound
      rw [pathname]
      exact read path isFound
  · exact absurd fits misfit

/-- In a finite tree, `ttyname_m` returns, and it finds the terminal if there is one. -/
theorem ttynameM_complete {sys : Sys} {fdstat : Stat} {all : List Block} {s : Search}
    (tree : FiniteTree sys passedOver all) (memory : ∀ k, sys.malloc k = true)
    (tty : sys.isatty = true) (stat : sys.fstat = some fdstat) (chr : isChr fdstat.stMode)
    (start : Start true s) :
    ∃ enough, ∀ rounds, enough ≤ rounds →
      ∃ found s', ttynameM sys rounds s = .ok (some found, s') ∧
        Complete sys passedOver fdstat found s' := by
  refine ⟨all.length, fun rounds enough => ?_⟩
  have outcome : Outcome sys fdstat (planAll sys fdstat (some POSIX_PATH_MAX) rounds).1
      (planAll sys fdstat (some POSIX_PATH_MAX) rounds).2 := planAll_tree tree memory enough
  obtain ⟨n, walked⟩ := outcome.scanned
  have reachable : ∀ dir ∈ Worklist.processed (subdirs sys passedOver) [dev] n,
      Reachable sys passedOver dir :=
    fun dir mem => Worklist.reach_of_mem_after (List.mem_of_mem_take mem)
  have once : (Worklist.processed (subdirs sys passedOver) [dev] n).Nodup :=
    ((worklistTree sys passedOver).nodup_after n).sublist (List.take_sublist _ _)
  obtain ⟨dir, name, reach, isMatch, value⟩ | ⟨value, noMatch⟩ := outcome.result
  · obtain ⟨s', ran, head, tail, trace, read⟩ :=
      ttynameM_of_planAll tty stat chr start outcome.clean.1 value
    rw [← walked, ← trace] at reachable once
    exact ⟨true, s', ran, reachable, once, iff_of_true rfl ⟨dir, name, reach, isMatch⟩,
      fun _ => ⟨dir, name, reach, isMatch, read _ rfl⟩, head, tail⟩
  · obtain ⟨s', ran, head, tail, trace, -⟩ :=
      ttynameM_of_planAll tty stat chr start outcome.clean.1 value
    rw [← walked, ← trace] at reachable once
    have nothing : ¬ ∃ dir name, Reachable sys passedOver dir ∧ Matches sys fdstat dir name := by
      rintro ⟨dir, name, reach, isMatch⟩
      exact noMatch dir reach name isMatch
    exact ⟨false, s', ran, reachable, once, iff_of_false (by simp) nothing,
      fun isFound => absurd isFound (by simp), head, tail⟩

/-- `/dev` has one directory, and the terminal is in it. -/
def ttyBelow (name : Block)
    (valid : name ≠ [] ∧ 0 ∉ name ∧ slash ∉ name ∧ name.length ≤ NAME_MAX) : Sys where
  opendir path :=
    if path = dev then some [name]
    else if path = join dev name then some [ascii "tty"] else none
  names := by
    intro dir names listing
    split at listing
    · cases listing
      exact ⟨List.nodup_singleton _, by simpa using valid⟩
    · split at listing
      · cases listing
        decide
      · cases listing
  stat path :=
    if path = join (join dev name) (ascii "tty") then some ⟨Ftw.Kind.chr.mode, 1, 0, 0⟩
    else some ⟨S_IFDIR, 0, 0, 0⟩
  isatty := true
  fstat := some ⟨Ftw.Kind.chr.mode, 1, 0, 0⟩
  malloc _ := true

/-- A terminal below `/dev/pts`. -/
theorem ttynameM_complete_pts :
    ∃ enough, ∀ rounds, enough ≤ rounds → ∃ found s',
      ttynameM (ttyBelow (ascii "pts") (by decide)) rounds .zero = .ok (some found, s') ∧
        Complete (ttyBelow (ascii "pts") (by decide)) passedOver ⟨Ftw.Kind.chr.mode, 1, 0, 0⟩ found
          s' := by
  have tree : FiniteTree (ttyBelow (ascii "pts") (by decide)) passedOver
      [dev, join dev (ascii "pts")] :=
    .of_closed (by decide) (by decide) (by decide) (by decide) (by decide) (by decide)
  exact ttynameM_complete tree (fun _ => rfl) rfl rfl (by decide) start_zero

/-- A terminal below `/dev/stdin`, which can be reached and is not found. -/
theorem ttynameM_skips_stdin :
    FiniteTree (ttyBelow (ascii "stdin") (by decide)) [devFd] [dev, join dev (ascii "stdin")] ∧
      (∃ dir name, Reachable (ttyBelow (ascii "stdin") (by decide)) [devFd] dir ∧
        Matches (ttyBelow (ascii "stdin") (by decide)) ⟨Ftw.Kind.chr.mode, 1, 0, 0⟩ dir name) ∧
      ∀ rounds, ∃ s', ttynameM (ttyBelow (ascii "stdin") (by decide)) rounds .zero =
        .ok (some false, s') := by
  refine ⟨.of_closed (by decide) (by decide) (by decide) (by decide) (by decide) (by decide),
    ⟨join dev (ascii "stdin"), ascii "tty", .next (.start List.mem_cons_self) (by decide),
      by decide, by decide, _, rfl, by decide, by decide⟩, fun rounds => ?_⟩
  have first : planDir (ttyBelow (ascii "stdin") (by decide)) ⟨Ftw.Kind.chr.mode, 1, 0, 0⟩
      (some POSIX_PATH_MAX) dev ⟨[], []⟩ = (none, ⟨[], [.opendir dev, .strncpy 251]⟩) := by
    decide +kernel
  have planned : planAll (ttyBelow (ascii "stdin") (by decide)) ⟨Ftw.Kind.chr.mode, 1, 0, 0⟩
      (some POSIX_PATH_MAX) rounds = (some none, ⟨[], [.opendir dev, .strncpy 251]⟩) := by
    rw [planAll, first]
    cases rounds <;> rfl
  have fits : Fits (ttyBelow (ascii "stdin") (by decide)) true
      (planAll (ttyBelow (ascii "stdin") (by decide)) ⟨Ftw.Kind.chr.mode, 1, 0, 0⟩
        (some POSIX_PATH_MAX) rounds).2.trace := by
    rw [planned]
    decide
  obtain ⟨s', ran, -⟩ := ttynameM_of_planAll rfl rfl (by decide) start_zero fits
    (congrArg Prod.fst planned)
  exact ⟨s', ran⟩

end UnixProgramming.Ttyname
