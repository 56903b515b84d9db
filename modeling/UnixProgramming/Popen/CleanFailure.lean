import UnixProgramming.Popen.ChildTable

/-!
# What `popen_m` leaves behind when it fails

The checks and calls in front of `fork` undo what they have done. Behind it nothing is undone:
when `fork` fails both ends of the pipe stay open, and when `fdopen` fails the end for the stream
stays open and the child goes on running without an entry in the table.
-/

namespace UnixProgramming.Popen

open CMemory Fallible Transition

/-- The descriptors are those of before, a table that was there is as it was, and every child of
the call has been waited for or can be, by the stream that was opened for it. -/
structure CleanFailure (s s' : State) : Prop where
  descriptors : s'.isOpen = s.isOpen
  table : ∀ table, s.childpid = some table → s'.childpid = some table
  children : ∀ events, s'.trace = s.trace ++ events → ∀ pid closes, .fork pid closes ∈ events →
    (∃ stat, .waitpid pid (.ok stat) ∈ events) ∨
      ∃ fd, s.streams fd = none ∧ s'.streams fd = some pid

/-- The call comes to `fork`: the mode is right, there is a table, and the pipe is in its bound. -/
structure ReachesFork (s : State) (type : List Char) (o : PopenOutcome) : Prop where
  mode : ¬ badType type
  table : (s.reserve o.calloc).childpid ≠ none
  pipe : ∃ p0 p1, o.pipe = .ok (p0, p1) ∧ p0 < (s.reserve o.calloc).maxfd ∧
    p1 < (s.reserve o.calloc).maxfd

section Failures

variable {s s' : State} {type : List Char} {o : PopenOutcome}

theorem CleanFailure.of_eq (descriptors : s'.isOpen = s.isOpen)
    (table : ∀ table, s.childpid = some table → s'.childpid = some table)
    (trace : s'.trace = s.trace) : CleanFailure s s' where
  descriptors := descriptors
  table := table
  children events longer pid closes mem := by
    obtain rfl : events = [] := by simpa [trace] using longer
    cases mem

theorem childpid_reserve (s : State) (calloc : Bool) (table : List Int)
    (allocated : s.childpid = some table) : (s.reserve calloc).childpid = some table := by
  rw [State.reserve, allocated]
  exact allocated

theorem CleanFailure.reserve (s : State) (calloc : Bool) : CleanFailure s (s.reserve calloc) :=
  .of_eq (s.isOpen_reserve calloc) (childpid_reserve s calloc) (s.trace_reserve calloc)

/-- Two descriptors that are opened and closed again. -/
theorem isOpen_undone {p0 p1 : Nat} (fresh0 : s.isOpen p0 = false) (fresh1 : s.isOpen p1 = false) :
    ((((s.setOpen p0 true).setOpen p1 true).setOpen p0 false).setOpen p1 false).isOpen =
      s.isOpen := by
  funext d
  simp only [State.setOpen, Function.update_apply]
  by_cases second : d = p1
  · simp [second, fresh1]
  · by_cases first : d = p0
    · simp [first, fresh0]
    · simp [first, second]

/-- What fails in front of `fork` leaves nothing behind. -/
theorem clean_of_not_reachesFork (enabled : s.Enabled (.popen type o))
    (early : ¬ ReachesFork s type o) :
    ∃ e s', s.popenM type o = .ok (.error e, s') ∧ CleanFailure s s' := by
  rw [State.popenM]
  by_cases bad : badType type
  · exact ⟨_, s, if_pos bad, .of_eq rfl (fun _ same => same) rfl⟩
  · rw [if_neg bad]
    dsimp only
    cases allocated : (s.reserve o.calloc).childpid with
    | none => exact ⟨_, _, rfl, .reserve s o.calloc⟩
    | some table =>
        dsimp only
        rw [State.popenPipe]
        cases pipe : o.pipe with
        | error e => exact ⟨_, _, rfl, .reserve s o.calloc⟩
        | ok ends =>
            obtain ⟨p0, p1⟩ := ends
            obtain ⟨fresh0, fresh1, -⟩ := enabled.1 p0 p1 pipe
            rw [← s.isOpen_reserve o.calloc] at fresh0 fresh1
            have large : (s.reserve o.calloc).maxfd ≤ p0 ∨ (s.reserve o.calloc).maxfd ≤ p1 := by
              by_contra inside
              rw [not_or, not_le, not_le] at inside
              exact early ⟨bad, by simp [allocated], p0, p1, pipe, inside.1, inside.2⟩
            refine ⟨_, _, if_pos large, .of_eq ?_ ?_ ?_⟩
            · exact (isOpen_undone fresh0 fresh1).trans (s.isOpen_reserve o.calloc)
            · exact childpid_reserve s o.calloc
            · exact s.trace_reserve o.calloc

/-- `popen_m` from `fork` on, with the end for the stream and the other one. -/
theorem popenM_of_reachesFork (reaches : ReachesFork s type o)
    (enabled : s.Enabled (.popen type o)) :
    ∃ table p0 p1 kept other, (s.reserve o.calloc).childpid = some table ∧
      (kept = p0 ∨ kept = p1) ∧ kept ≠ other ∧ s.isOpen kept = false ∧
      s.popenM type o =
        let s' := ((s.reserve o.calloc).setOpen p0 true).setOpen p1 true
        match o.fork with
        | .error e => .ok (.error e, s')
        | .ok pid => s'.popenParent table kept other pid o.fdopen := by
  obtain ⟨mode, table, p0, p1, pipe, inside0, inside1⟩ := reaches
  obtain ⟨table, allocated⟩ := Option.ne_none_iff_exists'.mp table
  obtain ⟨fresh0, fresh1, distinct⟩ := enabled.1 p0 p1 pipe
  have small : ¬ ((s.reserve o.calloc).maxfd ≤ p0 ∨ (s.reserve o.calloc).maxfd ≤ p1) := by omega
  have run : s.popenM type o = (s.reserve o.calloc).popenPipe table type o := by
    rw [State.popenM, if_neg mode]
    dsimp only
    rw [allocated]
  rw [run, State.popenPipe, pipe]
  dsimp only
  rw [State.maxfd_setOpen, State.maxfd_setOpen, if_neg small]
  by_cases reading : type[0]? = some 'r'
  · refine ⟨table, p0, p1, p0, p1, allocated, .inl rfl, distinct, fresh0, ?_⟩
    cases o.fork with
    | error e => rfl
    | ok pid => exact if_pos reading
  · refine ⟨table, p0, p1, p1, p0, allocated, .inr rfl, Ne.symm distinct, fresh1, ?_⟩
    cases o.fork with
    | error e => rfl
    | ok pid => exact if_neg reading

theorem isOpen_of_kept {p0 p1 kept : Nat} (end_ : kept = p0 ∨ kept = p1) :
    ((s.setOpen p0 true).setOpen p1 true).isOpen kept = true := by
  simp only [State.setOpen, Function.update_apply]
  obtain rfl | rfl := end_
  · split <;> simp
  · simp

/-- A descriptor that was closed and is open shows what was not undone. -/
theorem not_clean_of_isOpen {fd : Nat} (before : s.isOpen fd = false)
    (after : s'.isOpen fd = true) : ¬ CleanFailure s s' := by
  intro clean
  rw [clean.descriptors, before] at after
  cases after

end Failures

/-- A failure of `popen_m` is clean exactly where it does not come from `fork` or `fdopen`. -/
theorem popenM_clean_iff {s : State} (h : Reachable Step .init s) {type : List Char}
    {o : PopenOutcome} (enabled : s.Enabled (.popen type o)) :
    (∀ e s', s.popenM type o = .ok (.error e, s') → CleanFailure s s') ↔
      (ReachesFork s type o → (∃ pid, o.fork = .ok pid) ∧ o.fdopen = none) := by
  have inv : Inv s := h.invariant .init fun _ _ _ inv hstep => inv.step hstep
  by_cases reaches : ReachesFork s type o
  · obtain ⟨table, p0, p1, kept, other, allocated, end_, ne, fresh, run⟩ :=
      popenM_of_reachesFork reaches enabled
    have both := @isOpen_of_kept (s.reserve o.calloc) p0 p1 kept end_
    have inv' : Inv (((s.reserve o.calloc).setOpen p0 true).setOpen p1 true) :=
      ((inv.reserve o.calloc).open_fd p0).open_fd p1
    obtain ⟨closes, loop, -⟩ := inv'.childCloses allocated
    cases fork : o.fork with
    | error e =>
        rw [fork] at run
        refine iff_of_false (fun clean => ?_) (fun h => ?_)
        · exact not_clean_of_isOpen fresh both (clean _ _ run)
        · obtain ⟨pid, same⟩ := (h reaches).1
          cases same
    | ok pid =>
        rw [fork] at run
        simp only [State.popenParent, loop, ok_bind] at run
        cases fdopen : o.fdopen with
        | some e =>
            rw [fdopen] at run
            refine iff_of_false (fun clean => ?_) (fun h => ?_)
            · refine not_clean_of_isOpen fresh ?_ (clean _ _ run)
              exact (Function.update_of_ne ne _ _).trans both
            · cases (h reaches).2
        | none =>
            rw [fdopen] at run
            refine iff_of_true (fun e s' failed => ?_) fun _ => ⟨⟨pid, rfl⟩, rfl⟩
            rw [failed] at run
            obtain ⟨table', -, run⟩ := bind_ok run.symm
            cases run
  · obtain ⟨e, s', run, clean⟩ := clean_of_not_reachesFork enabled reaches
    refine iff_of_true (fun e' s'' failed => ?_) fun h => absurd h reaches
    rw [run] at failed
    cases failed
    exact clean

theorem enabled_pipe (calloc : Bool) (fork : Except Errno Int) (fdopen : Option Errno)
    (positive : ∀ pid, fork = .ok pid → 0 < pid) :
    State.init.Enabled (.popen ['r'] ⟨calloc, .ok (3, 4), fork, fdopen⟩) := by
  refine ⟨fun p0 p1 same => ?_, positive⟩
  cases same
  exact ⟨rfl, rfl, by decide⟩

/-- Without memory for the table the failure is clean. -/
theorem popenM_clean_calloc :
    State.init.popenM ['r'] ⟨false, .ok (3, 4), .ok 77, none⟩ =
        .ok (.error .enomem, State.init.reserve false) ∧
      ∀ e s', State.init.popenM ['r'] ⟨false, .ok (3, 4), .ok 77, none⟩ = .ok (.error e, s') →
        CleanFailure .init s' := by
  have enabled := enabled_pipe false (.ok 77) none fun pid same => by cases same; decide
  refine ⟨rfl, ?_⟩
  exact (popenM_clean_iff ⟨[], .nil _⟩ enabled).mpr fun reaches => absurd rfl reaches.table

/-- When `fork` fails, both ends of the pipe stay open. -/
theorem popenM_fork_leaks :
    ∃ s', State.init.popenM ['r'] ⟨true, .ok (3, 4), .error (.other 11), none⟩ =
        .ok (.error (.other 11), s') ∧
      s'.isOpen 3 = true ∧ s'.isOpen 4 = true ∧ ¬ CleanFailure .init s' := by
  refine ⟨((State.init.reserve true).setOpen 3 true).setOpen 4 true, rfl, rfl, rfl, ?_⟩
  exact @not_clean_of_isOpen .init _ 3 rfl rfl

end UnixProgramming.Popen
