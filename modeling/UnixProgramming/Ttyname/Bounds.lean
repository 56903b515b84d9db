import UnixProgramming.Ttyname.Follows

/-!
# Where the paths of `searchdir` fit

`strncpy` is limited to what is left of `_POSIX_PATH_MAX` bytes. A longer path is cut off, and
`stat` is called for another name. Behind the name of a directory of 256 bytes less than nothing
is left, and `strncpy` takes the difference as a number of bytes that is larger than any array.
-/

namespace UnixProgramming.Ttyname

open CMemory Fallible
open Ftw (slash NAME_MAX S_IFDIR isDir)

/-- Without a terminal, nothing is searched. -/
theorem descriptor_cases (sys : Sys) :
    (∃ fdstat, sys.isatty = true ∧ sys.fstat = some fdstat ∧ isChr fdstat.stMode) ∨
      (∀ rounds s, ttynameM sys rounds s = .ok (some false, s)) ∧
        ∀ limit rounds, planTtyname sys limit rounds = [] := by
  by_cases tty : sys.isatty = true
  · cases stat : sys.fstat with
    | none => exact .inr ⟨by simp [ttynameM, tty, stat], by simp [planTtyname, stat]⟩
    | some fdstat =>
        by_cases chr : isChr fdstat.stMode
        · exact .inl ⟨fdstat, tty, rfl, chr⟩
        · exact .inr ⟨by simp [ttynameM, tty, stat, chr], by simp [planTtyname, stat, chr]⟩
  · exact .inr ⟨by simp [ttynameM, tty], by simp [planTtyname, tty]⟩

theorem planTtyname_eq {sys : Sys} {fdstat : Stat} (tty : sys.isatty = true)
    (stat : sys.fstat = some fdstat) (chr : isChr fdstat.stMode) (limit : Option Nat)
    (rounds : Nat) :
    planTtyname sys limit rounds = (planAll sys fdstat limit rounds).2.trace := by
  rw [planTtyname, if_neg (not_not.mpr tty), stat]
  exact if_neg (not_not.mpr chr)

/-- A run of `ttyname_m` stays inside of `pathname`, with counts that are not negative and full
paths for `stat`, if and only if the buffer can hold the paths. -/
theorem ttynameM_right_iff (sys : Sys) (rounds : Nat) {clear : Bool} {s : Search}
    (start : Start clear s) :
    (∃ value s', ttynameM sys rounds s = .ok (value, s') ∧ Right none s'.trace) ↔
      Fits sys clear (planTtyname sys none rounds) := by
  obtain ⟨fdstat, tty, stat, chr⟩ | ⟨returns, nothing⟩ := descriptor_cases sys
  · rw [ttynameM_eq tty stat chr, planTtyname_eq tty stat chr]
    have wide : ∀ k ∈ (none : Option Nat), POSIX_PATH_MAX ≤ k := by simp
    have follows := @searchAll_follows sys fdstat none clear s wide rounds start
    obtain ⟨s₁, more, ran, tracks, -⟩ | ⟨misfit, wrong⟩ := follows
    · refine iff_of_true ?_ tracks.fits
      have right : Right none s₁.trace := tracks.trace ▸ tracks.right
      rw [ran, ok_bind]
      dsimp only
      cases (planAll sys fdstat none rounds).1 with
      | none => exact ⟨_, s₁, rfl, right⟩
      | some found =>
          obtain ⟨s₂, cleaned, -, -, -, trace⟩ := cleanup_represents tracks.list
          refine ⟨some found.isSome, s₂, ?_, trace ▸ right⟩
          rw [Option.map_some]
          dsimp only
          rw [cleaned]
          rfl
    · refine iff_of_false ?_ misfit
      rintro ⟨value, s', ran, right⟩
      obtain ⟨⟨rval, s₁⟩, searched, ran⟩ := bind_ok ran
      apply wrong rval s₁ searched
      cases rval with
      | none =>
          cases ran
          exact right
      | some rval =>
          obtain ⟨s₂, cleaned, ran⟩ := bind_ok ran
          cases ran
          rw [← cleanup_trace cleaned]
          exact right
  · rw [returns, nothing]
    refine iff_of_true ⟨_, s, rfl, ?_⟩ trivial
    simp [start.trace, Right]

/-- `/dev` has a directory with a name of `n` bytes, which has the entry `.` only. The terminal
is not there. -/
def oneDir (n : Nat) (nonempty : n ≠ 0) (short : n ≤ NAME_MAX) : Sys where
  opendir path :=
    if path = dev then some [List.replicate n 120]
    else if path = join dev (List.replicate n 120) then some [[46]] else none
  names := by
    intro dir names listing
    split at listing
    · cases listing
      refine ⟨List.nodup_singleton _, fun name mem => ?_⟩
      obtain rfl := List.mem_singleton.mp mem
      simp [slash, nonempty, short]
    · split at listing
      · cases listing
        decide
      · cases listing
  stat path := if path = join dev (List.replicate n 120) then some ⟨S_IFDIR, 0, 0, 0⟩ else none
  isatty := true
  fstat := some ⟨Ftw.Kind.chr.mode, 1, 0, 0⟩
  malloc _ := true

/-- A directory with a short name. -/
theorem ttynameM_right_oneDir :
    ∃ value s', ttynameM (oneDir 3 (by decide) (by decide)) 1 .zero = .ok (value, s') ∧
      Right none s'.trace :=
  (ttynameM_right_iff _ 1 start_zero).mpr (by decide +kernel)

/-- The path of the directory has 256 bytes, and the first entry in it is copied out of the
buffer. -/
theorem ttynameM_overflows :
    (∃ f, ttynameM (oneDir 251 (by decide) (by decide)) 1 .zero = .error (.fault f)) ∧
      ¬ ∃ value s', ttynameM (oneDir 251 (by decide) (by decide)) 1 .zero = .ok (value, s') ∧
        Right none s'.trace := by
  have stopped : (match ttynameM (oneDir 251 (by decide) (by decide)) 1 .zero with
      | .error (.fault _) => true
      | _ => false) = true := by
    decide +kernel
  split at stopped
  · rename_i f ran
    refine ⟨⟨f, ran⟩, ?_⟩
    rintro ⟨value, s', other, -⟩
    rw [ran] at other
    cases other
  · cases stopped

end UnixProgramming.Ttyname
