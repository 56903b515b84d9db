import UnixProgramming.Ttyname.Pathname

/-!
# `searchdir` with its buffer

The search with the buffer makes the same calls as the search without it, up to the first path
that the buffer cannot hold. There it leaves the buffer, or it calls `stat` for another string.
-/

namespace UnixProgramming.Ttyname

open CMemory Fallible
open Ftw (slash isDir NAME_MAX)

/-! ## Traces only grow -/

section Grows

variable {sys : Sys} {fdstat : Stat} {limit : Option Nat} {dir : Block} {names : List Block}

theorem Search.append_trace {s s' : Search} (run : s.append dir = .ok s') : s'.trace = s.trace := by
  rw [Search.append] at run
  dsimp only at run
  split at run
  · cases run
    rfl
  · obtain ⟨cell, -, run⟩ := bind_ok run
    cases run
    rfl

theorem add_trace {s s' : Search} (run : add sys dir s = .ok s') : s'.trace = s.trace := by
  rw [add] at run
  split at run
  · cases run
    rfl
  · split at run
    · cases run
      rfl
    · split at run
      · cases run
        rfl
      · exact Search.append_trace run

theorem Search.prefix_of_log {s : Search} {e : Event} {trace : List Event}
    (le : (s.log e).trace <+: trace) : s.trace <+: trace :=
  (List.prefix_append _ _).trans le

theorem Plan.prefix_of_log {w : Plan} {e : Event} {trace : List Event}
    (le : (w.log e).trace <+: trace) : w.trace <+: trace :=
  (List.prefix_append _ _).trans le

theorem readEntries_grows {devlen : Nat} {s s' : Search} {found : Bool}
    (run : readEntries sys fdstat dir devlen names s = .ok (found, s')) :
    s.trace <+: s'.trace := by
  induction names generalizing s with
  | nil =>
      cases run
      exact List.prefix_rfl
  | cons name names ih =>
      rw [readEntries] at run
      obtain ⟨pathname, -, run⟩ := bind_ok run
      obtain ⟨path, -, run⟩ := bind_ok run
      apply Search.prefix_of_log (e := .strncpy (POSIX_PATH_MAX - devlen))
      split at run
      · have later := ih run
        exact later
      · refine List.IsPrefix.trans (List.prefix_append _ [.stat dir name path]) ?_
        split at run
        · have later := ih run
          exact later
        · split at run
          · obtain ⟨s₁, added, run⟩ := bind_ok run
            have later := ih run
            rw [add_trace added] at later
            exact later
          · split at run
            · cases run
              exact List.prefix_rfl
            · have later := ih run
              exact later

theorem searchdir_grows {s s' : Search} {found : Bool}
    (run : searchdir sys fdstat dir s = .ok (found, s')) : s.trace <+: s'.trace := by
  rw [searchdir] at run
  obtain ⟨pathname, -, run⟩ := bind_ok run
  refine List.IsPrefix.trans (List.prefix_append _ [.opendir dir]) ?_
  split at run
  · cases run
    exact List.prefix_rfl
  · obtain ⟨path, -, run⟩ := bind_ok run
    obtain ⟨pathname', -, run⟩ := bind_ok run
    obtain ⟨path', -, run⟩ := bind_ok run
    exact readEntries_grows run

theorem searchList_grows {rounds : Nat} {p : Option Addr} {s s' : Search} {found : Option Bool}
    (run : searchList sys fdstat rounds p s = .ok (found, s')) : s.trace <+: s'.trace := by
  induction rounds generalizing p s with
  | zero =>
      cases p with
      | none => cases run; exact List.prefix_rfl
      | some ddp => cases run; exact List.prefix_rfl
  | succ rounds ih =>
      cases p with
      | none => cases run; exact List.prefix_rfl
      | some ddp =>
          rw [searchList] at run
          obtain ⟨cell, -, run⟩ := bind_ok run
          obtain ⟨⟨rval, s₁⟩, searched, run⟩ := bind_ok run
          apply (searchdir_grows searched).trans
          dsimp only at run
          split at run
          · cases run
            exact List.prefix_rfl
          · obtain ⟨cell', -, run⟩ := bind_ok run
            exact ih run

theorem Plan.add_trace (w : Plan) (sys : Sys) (dirname : Block) :
    (w.add sys dirname).trace = w.trace := by
  rw [Plan.add]
  split
  · rfl
  · split
    · rfl
    · split <;> rfl

theorem Plan.prefix_of_add {w : Plan} {trace : List Event}
    (le : (w.add sys dir).trace <+: trace) : w.trace <+: trace :=
  Plan.add_trace w sys dir ▸ le

theorem planEntries_grows (w : Plan) :
    w.trace <+: (planEntries sys fdstat limit dir names w).2.trace := by
  induction names generalizing w with
  | nil => exact List.prefix_rfl
  | cons name names ih =>
      rw [planEntries]
      dsimp only
      apply Plan.prefix_of_log (e := .strncpy (room dir))
      split
      · exact ih _
      · apply Plan.prefix_of_log (e := .stat dir name (cutAt limit (join dir name)))
        split
        · exact ih _
        · split
          · exact Plan.prefix_of_add (ih _)
          · split
            · exact List.prefix_rfl
            · exact ih _

theorem planDir_grows (w : Plan) : w.trace <+: (planDir sys fdstat limit dir w).2.trace := by
  rw [planDir]
  apply Plan.prefix_of_log (e := .opendir dir)
  split
  · exact List.prefix_rfl
  · exact planEntries_grows _

theorem planList_grows (rounds pos : Nat) (w : Plan) :
    w.trace <+: (planList sys fdstat limit rounds pos w).2.trace := by
  induction rounds generalizing pos w with
  | zero =>
      rw [planList]
      split <;> exact List.prefix_rfl
  | succ rounds ih =>
      rw [planList]
      split
      · exact List.prefix_rfl
      · rename_i dir' _
        have first : w.trace <+: (planDir sys fdstat limit dir' w).2.trace := planDir_grows w
        split
        · rename_i searched
          rw [searched] at first
          exact first
        · rename_i searched
          rw [searched] at first
          exact first.trans (ih _ _)

end Grows

/-! ## The same calls -/

/-- The search with the buffer stands where the search without it does. -/
structure Tracks (sys : Sys) (limit : Option Nat) (clear : Bool) (s : Search)
    (addrs : List Addr) (w : Plan) : Prop where
  list : Represents s addrs w.dirs
  trace : s.trace = w.trace
  dirs : ∀ dir ∈ w.dirs, dir.length ≤ POSIX_PATH_MAX ∧ 0 ∉ dir
  buffer : Buffer (clearAfter sys clear w.trace) s.pathname
  right : Right limit w.trace
  fits : Fits sys clear w.trace

/-- Either a run ends where the search without the buffer ends, with the same value, or there is
a path that the buffer cannot hold and a wrong string or a fault. -/
def Follows (sys : Sys) (limit : Option Nat) (clear : Bool) {β : Type}
    (run : Except Stop (β × Search)) (addrs : List Addr) (value : β) (found : Option Block)
    (w : Plan) : Prop :=
  (∃ s' more, run = .ok (value, s') ∧ Tracks sys limit clear s' (addrs ++ more) w ∧
    ∀ path, found = some path → readString s'.pathname = .ok path) ∨
  ¬ Fits sys clear w.trace ∧ ∀ value' s', run = .ok (value', s') → ¬ Right limit s'.trace

section Entries

variable {sys : Sys} {fdstat : Stat} {limit : Option Nat} {clear : Bool} {s : Search}
  {addrs : List Addr} {w : Plan} {dir name path : Block} {names : List Block}

theorem access_eq_ok {α : Type} {x : Except Fault α} {a : α} (h : access x = .ok a) :
    x = .ok a := by
  cases x with
  | error f => cases h
  | ok b =>
      cases h
      rfl

theorem Follows.widen {β : Type} {run : Except Stop (β × Search)} {more : List Addr} {value : β}
    {found : Option Block} (follows : Follows sys limit clear run (addrs ++ more) value found w) :
    Follows sys limit clear run addrs value found w := by
  obtain ⟨s', more', run, tracks, read⟩ | spoiled := follows
  · rw [List.append_assoc] at tracks
    exact .inl ⟨s', _, run, tracks, read⟩
  · exact .inr spoiled

/-- A run that has ended. -/
theorem Follows.here {β : Type} {run : Except Stop (β × Search)} {value : β}
    {found : Option Block} (ran : run = .ok (value, s)) (tracks : Tracks sys limit clear s addrs w)
    (read : ∀ path, found = some path → readString s.pathname = .ok path) :
    Follows sys limit clear run addrs value found w := by
  refine .inl ⟨s, [], ran, ?_, read⟩
  rw [List.append_nil]
  exact tracks

theorem Tracks.log {b : Block} (tracks : Tracks sys limit clear s addrs w) (e : Event)
    (fits : e.Fits (clearAfter sys clear w.trace)) (right : e.Right limit)
    (buffer : Buffer (e.clear sys (clearAfter sys clear w.trace)) b) :
    Tracks sys limit clear ((s.log e).setPathname b) addrs (w.log e) where
  list := tracks.list.congr rfl rfl rfl rfl
  trace := congrArg (· ++ [e]) tracks.trace
  dirs := tracks.dirs
  buffer := by
    rw [Plan.log, clearAfter_concat]
    exact buffer
  right := by
    intro e' mem
    obtain old | new := List.mem_append.mp mem
    · exact tracks.right e' old
    · rw [List.mem_singleton.mp new]
      exact right
  fits := (fits_concat e).mpr ⟨tracks.fits, fits⟩

theorem Tracks.add (tracks : Tracks sys limit clear s addrs w)
    (short : path.length ≤ POSIX_PATH_MAX) (plain : 0 ∉ path) :
    ∃ s' more, add sys path s = .ok s' ∧
      Tracks sys limit clear s' (addrs ++ more) (w.add sys path) ∧ s'.pathname = s.pathname := by
  have same : ∃ s' more, (.ok s : Except Stop Search) = .ok s' ∧
      Tracks sys limit clear s' (addrs ++ more) w ∧ s'.pathname = s.pathname :=
    ⟨s, [], rfl, by rw [List.append_nil]; exact tracks, rfl⟩
  rw [Ttyname.add, Plan.add, tracks.trace]
  by_cases dots : endsInDot path
  · rw [if_pos dots, if_pos dots]
    exact same
  · rw [if_neg dots, if_neg dots]
    by_cases fd : path = devFd
    · rw [if_pos fd, if_pos fd]
      exact same
    · rw [if_neg fd, if_neg fd]
      by_cases full : ¬ sys.malloc w.trace.length
      · rw [if_pos full, if_pos full]
        exact same
      · rw [if_neg full, if_neg full]
        obtain ⟨s', run, list, pathname, trace⟩ := tracks.list.append path
        refine ⟨s', [s.brk], run, ⟨list, trace.trans tracks.trace, ?_, ?_, tracks.right,
          tracks.fits⟩, pathname⟩
        · intro dir mem
          obtain old | new := List.mem_append.mp mem
          · exact tracks.dirs dir old
          · obtain rfl := List.mem_singleton.mp new
            exact ⟨short, plain⟩
        · rw [pathname]
          exact tracks.buffer

/-- How a run over a first entry begins. -/
theorem readEntries_cons {devlen : Nat} {s' : Search} {found : Bool}
    (run : readEntries sys fdstat dir devlen (name :: names) s = .ok (found, s')) :
    ∃ b p, strncpy s.pathname devlen name
        (BitVec.ofInt 64 (POSIX_PATH_MAX - devlen)).toNat = .ok b ∧ readString b = .ok p ∧
      (¬ isAlias p → .stat dir name p ∈ s'.trace) := by
  rw [readEntries] at run
  obtain ⟨b, copied, run⟩ := bind_ok run
  obtain ⟨p, read, run⟩ := bind_ok run
  refine ⟨b, p, access_eq_ok copied, access_eq_ok read, ?_⟩
  intro other
  rw [if_neg other] at run
  have called : ∀ t : Search, t.trace = s.trace ++ [.strncpy (POSIX_PATH_MAX - devlen)] ++
      [.stat dir name p] → t.trace <+: s'.trace → .stat dir name p ∈ s'.trace := by
    intro t trace le
    apply le.subset
    rw [trace]
    simp
  split at run
  · exact called _ rfl (readEntries_grows run)
  · split at run
    · obtain ⟨s₁, added, run⟩ := bind_ok run
      exact called _ (add_trace added) (readEntries_grows run)
    · split at run
      · cases run
        exact called _ rfl List.prefix_rfl
      · exact called _ rfl (readEntries_grows run)

theorem planEntries_cons (other : ¬ isAlias (cutAt limit (join dir name))) :
    ((w.log (.strncpy (room dir))).log
        (.stat dir name (cutAt limit (join dir name)))).trace <+:
      (planEntries sys fdstat limit dir (name :: names) w).2.trace := by
  rw [planEntries]
  dsimp only
  rw [if_neg other]
  split
  · exact planEntries_grows _
  · split
    · exact Plan.prefix_of_add (planEntries_grows _)
    · split
      · exact List.prefix_rfl
      · exact planEntries_grows _

theorem length_of_isAlias (mem : isAlias path) : path.length < POSIX_PATH_MAX := by
  have short : ∀ path ∈ aliases, path.length < POSIX_PATH_MAX := by decide
  exact short path mem

/-- A path that the buffer cannot hold is not one that is skipped. -/
theorem other_of_misfit (wide : ∀ k ∈ limit, POSIX_PATH_MAX ≤ k)
    (misfit : ¬ (Event.stat dir name (cutAt limit (join dir name))).Fits clear) :
    ¬ isAlias (cutAt limit (join dir name)) := by
  intro mem
  have short := length_of_isAlias mem
  have whole : (join dir name).length < POSIX_PATH_MAX := by
    by_contra long
    exact absurd (le_length_cutAt wide (not_lt.mp long)) (not_le.mpr short)
  rw [length_join] at whole
  exact misfit ⟨by omega, short.le, fun same => absurd same short.ne⟩

/-- The count as a `size_t`. -/
theorem toNat_count (inside : dir.length < POSIX_PATH_MAX) :
    (BitVec.ofInt 64 (room dir)).toNat =
      POSIX_PATH_MAX - (dir.length + 1) := by
  rw [BitVec.toNat_ofInt]
  simp only [room, POSIX_PATH_MAX] at inside ⊢
  omega

/-- Behind a directory of 256 bytes it is larger than the buffer. -/
theorem lt_toNat_count (full : dir.length = POSIX_PATH_MAX) :
    PATHNAME_SIZE < (BitVec.ofInt 64 (room dir)).toNat := by
  rw [BitVec.toNat_ofInt]
  simp only [room, PATHNAME_SIZE, POSIX_PATH_MAX] at full ⊢
  omega

/-- One entry whose path the buffer can hold. -/
theorem Tracks.copy (wide : ∀ k ∈ limit, POSIX_PATH_MAX ≤ k) (plain : 0 ∉ dir)
    (plainName : 0 ∉ name) (tracks : Tracks sys limit clear s addrs w)
    (front : ∃ rest, s.pathname = dir ++ slash :: rest)
    (fits : (Event.stat dir name (cutAt limit (join dir name))).Fits
      (clearAfter sys clear w.trace)) :
    ∃ b s₁, strncpy s.pathname (dir.length + 1) name
        (BitVec.ofInt 64 (room dir)).toNat = .ok b ∧
      (s.log (.strncpy (room dir))).setPathname b = s₁ ∧
      readString s₁.pathname = .ok (cutAt limit (join dir name)) ∧
      (∃ rest, s₁.pathname = dir ++ slash :: rest) ∧
      Tracks sys limit clear s₁ addrs (w.log (.strncpy (room dir))) := by
  obtain ⟨inside, short, last⟩ := fits
  obtain ⟨back, split⟩ := front
  obtain ⟨b, copied, shape, buffer⟩ := tracks.buffer.strncpy name split inside
  have read := tracks.buffer.read_fits wide plain plainName inside rfl short last
  refine ⟨b, _, by rw [toNat_count inside, copied], rfl, ?_, ⟨_, shape⟩, ?_⟩
  · exact (congrArg readString shape).trans read
  have count : 0 ≤ room dir := by
    rw [room]
    omega
  exact tracks.log _ trivial count buffer

/-- The first entry whose path the buffer cannot hold. -/
theorem not_right_of_misfit (shortDir : dir.length ≤ POSIX_PATH_MAX) (plain : 0 ∉ dir)
    (plainName : 0 ∉ name) (noSlash : slash ∉ name) (tracks : Tracks sys limit clear s addrs w)
    (front : ∃ rest, s.pathname = dir ++ slash :: rest)
    (misfit : ¬ (Event.stat dir name (cutAt limit (join dir name))).Fits
      (clearAfter sys clear w.trace))
    {found : Bool} {s' : Search}
    (run : readEntries sys fdstat dir (dir.length + 1) (name :: names) s = .ok (found, s')) :
    ¬ Right limit s'.trace := by
  intro right
  obtain ⟨b, p, copied, read, called⟩ := readEntries_cons run
  obtain inside | full := lt_or_eq_of_le shortDir
  · obtain ⟨back, split⟩ := front
    obtain ⟨b', copied', shape, -⟩ := tracks.buffer.strncpy name split inside
    rw [toNat_count inside, copied'] at copied
    cases copied
    rw [shape] at read
    obtain ⟨wrong, long⟩ := tracks.buffer.read_misfit plain plainName noSlash inside rfl
      (fun fits => misfit ⟨inside, fits⟩) read
    have other : ¬ isAlias p := fun mem => absurd (length_of_isAlias mem) (not_lt.mpr long)
    exact wrong (right _ (called other))
  · -- the count is negative
    have size := tracks.buffer.size
    have large : PATHNAME_SIZE < (BitVec.ofInt 64 (POSIX_PATH_MAX -
        (dir.length + 1 : Nat))).toNat := lt_toNat_count full
    rw [strncpy, if_neg] at copied
    · cases copied
    · omega

theorem Follows.misfit (wide : ∀ k ∈ limit, POSIX_PATH_MAX ≤ k)
    (shortDir : dir.length ≤ POSIX_PATH_MAX) (plain : 0 ∉ dir) (plainName : 0 ∉ name)
    (noSlash : slash ∉ name) (tracks : Tracks sys limit clear s addrs w)
    (front : ∃ rest, s.pathname = dir ++ slash :: rest)
    (misfit : ¬ (Event.stat dir name (cutAt limit (join dir name))).Fits
      (clearAfter sys clear w.trace)) :
    Follows sys limit clear (readEntries sys fdstat dir (dir.length + 1) (name :: names) s) addrs
      (planEntries sys fdstat limit dir (name :: names) w).1.isSome
      (planEntries sys fdstat limit dir (name :: names) w).1
      (planEntries sys fdstat limit dir (name :: names) w).2 := by
  right
  constructor
  · intro fits
    have le : ((w.log (.strncpy (room dir))).log
        (.stat dir name (cutAt limit (join dir name)))).trace <+:
        (planEntries sys fdstat limit dir (name :: names) w).2.trace :=
      planEntries_cons (other_of_misfit wide misfit)
    have upTo := ((fits_concat _).mp (fits.of_isPrefix le)).2
    rw [Plan.log, clearAfter_concat] at upTo
    exact misfit upTo
  · intro value' s' run
    exact not_right_of_misfit shortDir plain plainName noSlash tracks front misfit run

theorem readEntries_follows (wide : ∀ k ∈ limit, POSIX_PATH_MAX ≤ k)
    (shortDir : dir.length ≤ POSIX_PATH_MAX) (plain : 0 ∉ dir)
    (valid : ∀ name ∈ names, 0 ∉ name ∧ slash ∉ name) (tracks : Tracks sys limit clear s addrs w)
    (front : ∃ rest, s.pathname = dir ++ slash :: rest) :
    Follows sys limit clear (readEntries sys fdstat dir (dir.length + 1) names s) addrs
      (planEntries sys fdstat limit dir names w).1.isSome
      (planEntries sys fdstat limit dir names w).1
      (planEntries sys fdstat limit dir names w).2 := by
  induction names generalizing s addrs w with
  | nil => exact .here rfl tracks (by simp [planEntries])
  | cons name names ih =>
      have later : ∀ name ∈ names, 0 ∉ name ∧ slash ∉ name :=
        fun other mem => valid other (List.mem_cons_of_mem name mem)
      obtain ⟨plainName, noSlash⟩ := valid name List.mem_cons_self
      by_cases fits : (Event.stat dir name (cutAt limit (join dir name))).Fits
          (clearAfter sys clear w.trace)
      · obtain ⟨b, s₁, copied, next, read, front₁, tracks₁⟩ :=
          tracks.copy wide plain plainName front fits
        have copied' : (access (strncpy (s.log (.strncpy (room dir))).pathname (dir.length + 1)
            name (BitVec.ofInt 64 (room dir)).toNat) : Except Stop Block) = .ok b :=
          congrArg access copied
        rw [readEntries, planEntries]
        dsimp only
        rw [copied', ok_bind, next, read, access_ok, ok_bind]
        have fits₁ : (Event.stat dir name (cutAt limit (join dir name))).Fits
            (clearAfter sys clear (w.log (.strncpy (room dir))).trace) := by
          rw [Plan.log, clearAfter_concat]
          exact fits
        have plainPath : 0 ∉ cutAt limit (join dir name) := fun mem =>
          plain_join plain plainName ((cutAt_isPrefix limit _).subset mem)
        -- what follows depends on the states behind `strncpy` and the path only
        generalize w.log (.strncpy (room dir)) = w₁ at *
        generalize cut : cutAt limit (join dir name) = path at *
        by_cases skip : isAlias path
        · rw [if_pos skip, if_pos skip]
          exact ih later tracks₁ front₁
        · rw [if_neg skip, if_neg skip]
          have tracks₂ : Tracks sys limit clear (s₁.log (.stat dir name path)) addrs
              (w₁.log (.stat dir name path)) :=
            tracks₁.log _ fits₁ cut.symm tracks₁.buffer
          cases stat : sys.stat path with
          | none => exact ih later tracks₂ front₁
          | some devstat =>
              dsimp only
              by_cases below : isDir devstat.stMode
              · rw [if_pos below, if_pos below]
                obtain ⟨s₃, more, added, tracks₃, pathname⟩ := tracks₂.add fits.2.1 plainPath
                rw [added, ok_bind]
                exact (ih later tracks₃ (pathname ▸ front₁)).widen
              · rw [if_neg below, if_neg below]
                by_cases same : devstat.sameDevice fdstat
                · rw [if_pos same, if_pos same]
                  apply Follows.here rfl tracks₂
                  rintro _ ⟨⟩
                  exact read
                · rw [if_neg same, if_neg same]
                  exact ih later tracks₂ front₁
      · exact .misfit wide shortDir plain plainName noSlash tracks front fits

theorem searchdir_follows (wide : ∀ k ∈ limit, POSIX_PATH_MAX ≤ k)
    (shortDir : dir.length ≤ POSIX_PATH_MAX) (plain : 0 ∉ dir)
    (tracks : Tracks sys limit clear s addrs w) :
    Follows sys limit clear (searchdir sys fdstat dir s) addrs
      (planDir sys fdstat limit dir w).1.isSome (planDir sys fdstat limit dir w).1
      (planDir sys fdstat limit dir w).2 := by
  obtain ⟨rest, copied, buffer₁⟩ := tracks.buffer.strcpy shortDir
  rw [searchdir, planDir, copied, access_ok, ok_bind]
  cases listing : sys.opendir dir with
  | none =>
      have cleared : (Event.opendir dir).clear sys (clearAfter sys clear w.trace) =
          if dir.length = POSIX_PATH_MAX then true else clearAfter sys clear w.trace := by
        rw [Event.clear, listing]
        simp
      exact .here rfl (tracks.log (.opendir dir) trivial trivial (cleared ▸ buffer₁)) (by simp)
  | some names =>
      obtain ⟨rest', added, buffer₂⟩ := buffer₁.strcat shortDir
      have cleared : (Event.opendir dir).clear sys (clearAfter sys clear w.trace) =
          if dir.length = POSIX_PATH_MAX then false
          else if dir.length + 1 = POSIX_PATH_MAX then true
          else if dir.length = POSIX_PATH_MAX then true else clearAfter sys clear w.trace := by
        rw [Event.clear, listing]
        simp only [Option.isNone_some, Option.isSome_some, Bool.or_true]
        split
        · rfl
        · rfl
      have tracks₁ : Tracks sys limit clear
          ((s.log (.opendir dir)).setPathname (dir ++ slash :: 0 :: rest')) addrs
          (w.log (.opendir dir)) :=
        tracks.log (.opendir dir) trivial trivial (cleared ▸ buffer₂)
      have valid : ∀ name ∈ names, 0 ∉ name ∧ slash ∉ name := by
        intro name mem
        obtain ⟨-, plainName, noSlash, -⟩ := (sys.names dir names listing).2 name mem
        exact ⟨plainName, noSlash⟩
      have plainSlash : 0 ∉ dir ++ [slash] := by
        have nonzero : (0 : UInt8) ≠ slash := by decide
        simp [plain, nonzero]
      have first : readString (dir ++ 0 :: rest) = .ok dir := readString_append_nul plain rest
      have second : readString (dir ++ slash :: 0 :: rest') = .ok (dir ++ [slash]) := by
        simpa using readString_append_nul plainSlash rest'
      simp only [Search.setPathname, Search.log, first, access_ok, ok_bind, added, second,
        List.length_append, List.length_singleton]
      exact readEntries_follows wide shortDir plain valid tracks₁ ⟨_, rfl⟩

/-- A search in a directory and, if it finds nothing, what comes next. -/
theorem Follows.andThen {run : Except Stop (Bool × Search)} {first : Option Block × Plan}
    (follows : Follows sys limit clear run addrs first.1.isSome first.1 first.2)
    (next : Search → Except Stop (Option Bool × Search))
    (nextPlan : Plan → Option (Option Block) × Plan)
    (later : ∀ s' more, Tracks sys limit clear s' (addrs ++ more) first.2 →
      Follows sys limit clear (next s') (addrs ++ more) ((nextPlan first.2).1.map Option.isSome)
        (nextPlan first.2).1.join (nextPlan first.2).2)
    (planGrows : first.2.trace <+: (nextPlan first.2).2.trace)
    (grows : ∀ s₁ value s₂, next s₁ = .ok (value, s₂) → s₁.trace <+: s₂.trace) :
    Follows sys limit clear
      (do let (rval, s) ← run
          if rval then return (some true, s) else next s) addrs
      ((match first with
        | (some path, w) => (some (some path), w)
        | (none, w) => nextPlan w).1.map Option.isSome)
      (match first with
        | (some path, w) => (some (some path), w)
        | (none, w) => nextPlan w).1.join
      (match first with
        | (some path, w) => (some (some path), w)
        | (none, w) => nextPlan w).2 := by
  obtain ⟨found, w₁⟩ := first
  dsimp only at follows later planGrows
  obtain ⟨s₁, more, ran, tracks, read⟩ | ⟨misfit, spoiled⟩ := follows
  · rw [ran, ok_bind]
    cases found with
    | some path =>
        refine .inl ⟨s₁, more, rfl, tracks, ?_⟩
        intro path' same
        exact read path' same
    | none => exact (later s₁ more tracks).widen
  · refine .inr ⟨?_, ?_⟩
    · cases found with
      | some path => exact misfit
      | none => exact fun fits => misfit (fits.of_isPrefix planGrows)
    · intro value s₂ ran
      obtain ⟨⟨rval, s₁⟩, searched, ran⟩ := bind_ok ran
      have wrong := spoiled rval s₁ searched
      cases rval with
      | true =>
          cases ran
          exact wrong
      | false => exact fun right => wrong (right.of_isPrefix (grows _ _ _ ran))

/-- The loop of `ttyname_m` at the end of the list. -/
theorem searchList_done (rounds : Nat) (tracks : Tracks sys limit clear s addrs w) :
    Follows sys limit clear (searchList sys fdstat rounds none s) addrs
      ((planList sys fdstat limit rounds addrs.length w).1.map Option.isSome)
      (planList sys fdstat limit rounds addrs.length w).1.join
      (planList sys fdstat limit rounds addrs.length w).2 := by
  have done : w.dirs[addrs.length]? = none := by
    rw [List.getElem?_eq_none_iff, ← tracks.list.length_eq]
  have planned : planList sys fdstat limit rounds addrs.length w = (some none, w) := by
    cases rounds <;> rw [planList, done]
  have ran : searchList sys fdstat rounds none s = .ok (some false, s) := by
    cases rounds <;> rfl
  rw [planned, ran]
  exact .here rfl tracks (fun path same => nomatch same)

/-- The loop of `ttyname_m`, in the middle of the list. -/
theorem searchList_follows (wide : ∀ k ∈ limit, POSIX_PATH_MAX ≤ k) {rounds : Nat}
    {front back : List Addr} {p : Option Addr} (tracks : Tracks sys limit clear s (front ++ back) w)
    (chain : Linked.Chain s.links p back) :
    Follows sys limit clear (searchList sys fdstat rounds p s) (front ++ back)
      ((planList sys fdstat limit rounds front.length w).1.map Option.isSome)
      (planList sys fdstat limit rounds front.length w).1.join
      (planList sys fdstat limit rounds front.length w).2 := by
  induction rounds generalizing s w front back p with
  | zero =>
      cases back with
      | nil =>
          obtain rfl := Linked.chain_nil.mp chain
          rw [List.append_nil] at tracks ⊢
          exact searchList_done 0 tracks
      | cons ddp back =>
          obtain ⟨rfl, -⟩ := Linked.chain_cons.mp chain
          obtain ⟨cell, -, named, -⟩ := tracks.list.cell
          rw [planList, named]
          exact .here rfl tracks (fun path same => nomatch same)
  | succ rounds ih =>
      cases back with
      | nil =>
          obtain rfl := Linked.chain_nil.mp chain
          rw [List.append_nil] at tracks ⊢
          exact searchList_done _ tracks
      | cons ddp back =>
          obtain ⟨rfl, -⟩ := Linked.chain_cons.mp chain
          obtain ⟨cell, here, named, -⟩ := tracks.list.cell
          obtain ⟨shortDir, plain⟩ := tracks.dirs _ (List.mem_of_getElem? named)
          rw [planList, searchList, named, read_of_heap here, ok_bind]
          dsimp only
          refine (searchdir_follows wide shortDir plain tracks).andThen
            (fun s => do
              let cell ← s.read ddp
              searchList sys fdstat rounds cell.dNext s)
            (planList sys fdstat limit rounds (front.length + 1)) ?_ (planList_grows _ _ _) ?_
          · intro s' more tracks'
            -- the list has grown, and the cell is still where it was
            have same : front ++ ddp :: back ++ more = front ++ [ddp] ++ (back ++ more) := by simp
            rw [same] at tracks' ⊢
            have tracks'' : Tracks sys limit clear s' (front ++ ddp :: (back ++ more))
                (planDir sys fdstat limit cell.dName w).2 := by
              simpa using tracks'
            obtain ⟨cell', here', -, rest⟩ := tracks''.list.cell
            have after := ih tracks' rest
            rw [List.length_append, List.length_singleton] at after
            rw [read_of_heap here', ok_bind]
            exact after
          · intro s₁ value s₂ ran
            obtain ⟨cell', -, ran⟩ := bind_ok ran
            exact searchList_grows ran

end Entries

/-- A state in which `ttyname_m` is called: the list is empty, and `clear` says what an earlier
call has left behind the paths. -/
structure Start (clear : Bool) (s : Search) : Prop where
  buffer : Buffer clear s.pathname
  head : s.head = none
  tail : s.tail = none
  trace : s.trace = []

theorem start_zero : Start true .zero :=
  ⟨⟨List.length_replicate, List.getElem?_replicate_of_lt (by decide)⟩, rfl, rfl, rfl⟩

section Start

variable {sys : Sys} {fdstat : Stat} {limit : Option Nat} {clear : Bool} {s : Search}

theorem Start.tracks (start : Start clear s) : Tracks sys limit clear s [] ⟨[], []⟩ where
  list := .empty s start.head start.tail
  trace := start.trace
  dirs := by simp
  buffer := start.buffer
  right := by simp [Right]
  fits := trivial

theorem searchAll_follows (wide : ∀ k ∈ limit, POSIX_PATH_MAX ≤ k) (rounds : Nat)
    (start : Start clear s) :
    Follows sys limit clear (searchAll sys fdstat rounds s) []
      ((planAll sys fdstat limit rounds).1.map Option.isSome)
      (planAll sys fdstat limit rounds).1.join (planAll sys fdstat limit rounds).2 := by
  have root : Follows sys limit clear (searchdir sys fdstat dev s) []
      (planDir sys fdstat limit dev ⟨[], []⟩).1.isSome (planDir sys fdstat limit dev ⟨[], []⟩).1
      (planDir sys fdstat limit dev ⟨[], []⟩).2 :=
    searchdir_follows wide (by decide) (by decide) start.tracks
  rw [searchAll, planAll]
  refine root.andThen (fun s => searchList sys fdstat rounds s.head s)
    (planList sys fdstat limit rounds 0) ?_ (planList_grows _ _ _) ?_
  · intro s' more tracks
    exact searchList_follows wide tracks tracks.list.chain
  · intro s₁ value s₂ ran
    exact searchList_grows ran

end Start

end UnixProgramming.Ttyname
