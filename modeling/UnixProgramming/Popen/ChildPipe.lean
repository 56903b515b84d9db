import UnixProgramming.Library.DescriptorTable
import UnixProgramming.Popen.CleanFailure

/-!
# The descriptors of a child of `popen_m`

The child moves its end of the pipe to its standard descriptor, and then it closes the descriptors
of all earlier streams by their numbers. A parent that has closed a standard descriptor may have
got an earlier stream under that number. The loop then closes what was moved there.
-/

namespace UnixProgramming.Popen

open CMemory Fallible Transition DescriptorTable

def STDIN_FILENO : Nat := 0

def STDOUT_FILENO : Nat := 1

variable {ρ : Type}

/-- The child closes the end that it does not use and moves the other one. -/
def childEnds (fds : Table Nat ρ) (unused used std : Nat) : Table Nat ρ :=
  let fds := fds.close unused
  if used ≠ std then ((fds.dup2 used std).getD fds).close used else fds

/-- The child from `fork` to `execl`. -/
def popenChild (fds : Table Nat ρ) (table : List Int) (maxfd : Nat) (type : List Char)
    (p0 p1 : Nat) : Except Fault (Table Nat ρ) := do
  let fds := if type[0]? = some 'r' then childEnds fds p0 p1 STDOUT_FILENO
    else childEnds fds p1 p0 STDIN_FILENO
  let closes ← childCloses table (List.range maxfd)
  return fds.closeAll closes

/-- The descriptors at the `execl` of the child, if `popen_m` comes to it. The new pipe has the
ends `reading` and `writing`. -/
def State.popenExecl (s : State) (fds : Table Nat ρ) (type : List Char) (o : PopenOutcome)
    (reading writing : ρ) : Except Fault (Option (Table Nat ρ)) :=
  if badType type then .ok none
  else
    let s := s.reserve o.calloc
    match s.childpid, o.pipe, o.fork with
    | some table, .ok (p0, p1), .ok _ =>
        if s.maxfd ≤ p0 ∨ s.maxfd ≤ p1 then .ok none
        else do
          let fds := (fds.opened p0 reading).opened p1 writing
          return some (← popenChild fds table s.maxfd type p0 p1)
    | _, _, _ => .ok none

/-- The descriptor from which the child's command writes or to which it reads. -/
def standardOf (type : List Char) : Nat :=
  if type[0]? = some 'r' then STDOUT_FILENO else STDIN_FILENO

/-- The child has its end of the new pipe as its standard descriptor and under no other number.
It has neither the other end nor what an earlier stream refers to. -/
structure ChildRight (s : State) (fds child : Table Nat ρ) (type : List Char)
    (reading writing : ρ) : Prop where
  standard : child (standardOf type) = some (if type[0]? = some 'r' then writing else reading)
  only : ∀ d, d ≠ standardOf type → child d ≠ some reading ∧ child d ≠ some writing
  earlier : ∀ d e, s.streams e ≠ none → child d ≠ fds e

theorem childEnds_apply {fds : Table Nat ρ} {unused used std : Nat} {own : ρ}
    (distinct : used ≠ unused) (isOpen : fds used = some own) (d : Nat) :
    childEnds fds unused used std d =
      if d = std then some own else if d = used ∨ d = unused then none else fds d := by
  have kept : fds.close unused used = some own := by rw [Table.close_of_ne _ distinct, isOpen]
  rw [childEnds]
  by_cases move : used ≠ std
  · rw [if_pos move, Table.dup2_eq kept]
    simp only [Option.getD_some, Table.close_apply, Table.opened_apply]
    by_cases atStd : d = std
    · subst atStd
      simp [Ne.symm move]
    · by_cases atUsed : d = used
      · simp [atUsed, move]
      · simp [atStd, atUsed]
  · obtain rfl : used = std := not_not.mp move
    rw [if_neg move, Table.close_apply]
    by_cases atUsed : d = used
    · subst atUsed
      simp [distinct, isOpen]
    · simp [atUsed]

section Child

variable {s : State} {fds : Table Nat ρ} {type : List Char} {reading writing : ρ} {p0 p1 : Nat}

/-- Both modes: the child's end is under its standard number, and both old numbers are closed. -/
theorem childEnds_mode (distinct : p0 ≠ p1) (d : Nat) :
    (if type[0]? = some 'r'
      then childEnds ((fds.opened p0 reading).opened p1 writing) p0 p1 STDOUT_FILENO
      else childEnds ((fds.opened p0 reading).opened p1 writing) p1 p0 STDIN_FILENO) d =
      if d = standardOf type then some (if type[0]? = some 'r' then writing else reading)
      else if d = p0 ∨ d = p1 then none else fds d := by
  have open0 : (fds.opened p0 reading).opened p1 writing p0 = some reading := by
    rw [Table.opened_of_ne _ _ distinct, Table.opened_self]
  have open1 : (fds.opened p0 reading).opened p1 writing p1 = some writing := by
    rw [Table.opened_self]
  by_cases mode : type[0]? = some 'r'
  · rw [if_pos mode, if_pos mode, standardOf, if_pos mode, childEnds_apply distinct.symm open1]
    by_cases first : d = p0
    · simp [first]
    · by_cases second : d = p1
      · simp [second]
      · simp [first, second, Table.opened_of_ne]
  · rw [if_neg mode, if_neg mode, standardOf, if_neg mode, childEnds_apply distinct open0]
    by_cases first : d = p0
    · simp [first]
    · by_cases second : d = p1
      · simp [second]
      · simp [first, second, Table.opened_of_ne]

/-- What every descriptor of the child refers to. -/
theorem popenExecl_eq (inv : Inv s) {o : PopenOutcome} {pid : Int}
    (reaches : ReachesFork s type o) (enabled : s.Enabled (.popen type o))
    (fork : o.fork = .ok pid) :
    ∃ child p0 p1, s.popenExecl fds type o reading writing = .ok (some child) ∧
      s.isOpen p0 = false ∧ s.isOpen p1 = false ∧
      ∀ d, child d = if s.streams d ≠ none then none
        else if d = standardOf type then some (if type[0]? = some 'r' then writing else reading)
        else if d = p0 ∨ d = p1 then none else fds d := by
  obtain ⟨mode, table, p0, p1, pipe, inside0, inside1⟩ := reaches
  obtain ⟨table, allocated⟩ := Option.ne_none_iff_exists'.mp table
  obtain ⟨fresh0, fresh1, distinct⟩ := enabled.1 p0 p1 pipe
  have small : ¬ ((s.reserve o.calloc).maxfd ≤ p0 ∨ (s.reserve o.calloc).maxfd ≤ p1) := by omega
  obtain ⟨closes, loop, others⟩ := (inv.reserve o.calloc).childCloses allocated
  rw [State.streams_reserve] at others
  obtain ⟨child, run, descriptors⟩ : ∃ child, popenChild ((fds.opened p0 reading).opened p1 writing)
      table (s.reserve o.calloc).maxfd type p0 p1 = .ok child ∧
      ∀ d, child d = if d ∈ closes then none
        else if d = standardOf type then some (if type[0]? = some 'r' then writing else reading)
        else if d = p0 ∨ d = p1 then none else fds d := by
    rw [popenChild, loop]
    refine ⟨_, rfl, fun d => ?_⟩
    rw [Table.closeAll_apply, childEnds_mode distinct]
  refine ⟨child, p0, p1, ?_, fresh0, fresh1, fun d => ?_⟩
  · rw [State.popenExecl, if_neg mode]
    dsimp only
    rw [allocated, pipe, fork]
    dsimp only
    rw [if_neg small, run]
    rfl
  · simp only [descriptors, others]

end Child

/-- The child gets the right descriptors exactly where its standard descriptor is not that of an
earlier stream, and no other descriptor of the parent is a duplicate of an earlier stream's. -/
theorem popenExecl_right_iff {s : State} (h : Reachable Step .init s) {fds : Table Nat ρ}
    (consistent : ∀ d, s.isOpen d = true ↔ fds d ≠ none) {type : List Char} {o : PopenOutcome}
    {pid : Int} (reaches : ReachesFork s type o) (enabled : s.Enabled (.popen type o))
    (fork : o.fork = .ok pid) {reading writing : ρ}
    (new : ∀ d, fds d ≠ some reading ∧ fds d ≠ some writing) :
    ∃ child, s.popenExecl fds type o reading writing = .ok (some child) ∧
      (ChildRight s fds child type reading writing ↔
        s.streams (standardOf type) = none ∧
          ∀ d e, s.streams e ≠ none → s.streams d = none → d ≠ standardOf type →
            fds d ≠ fds e) := by
  have inv : Inv s := h.invariant .init fun _ _ _ inv hstep => inv.step hstep
  obtain ⟨child, p0, p1, run, fresh0, fresh1, descriptors⟩ :=
    popenExecl_eq inv reaches enabled fork
  have referred : ∀ e, s.streams e ≠ none → fds e ≠ none := by
    intro e stream
    obtain ⟨pid, stream⟩ := Option.ne_none_iff_exists'.mp stream
    exact (consistent e).mp (inv.opened e pid stream)
  refine ⟨child, run, ⟨fun right => ⟨?_, fun d e stream free ne same => ?_⟩, ?_⟩⟩
  · by_contra stream
    have standard := right.standard
    rw [descriptors, if_pos stream] at standard
    cases standard
  · -- a duplicate was open before the pipe, so the child still has it
    have isOpen : s.isOpen d = true := (consistent d).mpr (same ▸ referred e stream)
    have old : ¬ (d = p0 ∨ d = p1) := by
      rintro (rfl | rfl)
      · simp [fresh0] at isOpen
      · simp [fresh1] at isOpen
    apply right.earlier d e stream
    rw [descriptors, if_neg (not_not.mpr free), if_neg ne, if_neg old, same]
  · rintro ⟨free, apart⟩
    constructor
    case standard => rw [descriptors, if_neg (not_not.mpr free), if_pos rfl]
    case only =>
      intro d ne
      rw [descriptors, if_neg ne]
      split
      · simp
      · split
        · simp
        · exact new d
    case earlier =>
      intro d e stream
      rw [descriptors]
      by_cases closed : s.streams d ≠ none
      · rw [if_pos closed]
        exact (referred e stream).symm
      · rw [if_neg closed]
        by_cases standard : d = standardOf type
        · rw [if_pos standard]
          split
          · exact (new e).2.symm
          · exact (new e).1.symm
        · rw [if_neg standard]
          split
          · exact (referred e stream).symm
          · exact apart d e stream (not_not.mp closed) standard

/-- A parent without standard descriptors has got its first stream under the number 0. -/
theorem exists_stream_zero :
    ∃ s, Reachable Step .init s ∧ s.streams 0 = some 77 ∧ (∀ d, d ≠ 0 → s.streams d = none) ∧
      (∀ d, s.isOpen d = true ↔ d = 0) ∧ s.childpid ≠ none ∧ s.maxfd = MAXFD := by
  let table : List Int := List.replicate MAXFD 0
  let s : State := ((State.init.reserve true).setOpen 0 true).setOpen 1 true
  have inv : Inv s := ((Inv.init.reserve true).open_fd 0).open_fd 1
  obtain ⟨closes, loop, -⟩ := inv.childCloses (rfl : s.childpid = some table)
  have stored : store table 0 77 = .ok (table.set 0 77) :=
    if_pos (by rw [List.length_replicate]; decide)
  let s' : State := (((s.emit (.fork 77 closes)).setOpen 1 false).setTable
    (table.set 0 77)).setStream 0 (some 77)
  have run : State.init.popenM ['r'] ⟨true, .ok (0, 1), .ok 77, none⟩ = .ok (.ok 0, s') := by
    show s.popenParent table 0 1 77 none = _
    rw [State.popenParent, loop]
    simp only [ok_bind, stored]
    rfl
  have enabled : State.init.Enabled (.popen ['r'] ⟨true, .ok (0, 1), .ok 77, none⟩) := by
    refine ⟨fun p0 p1 same => ?_, fun pid same => ?_⟩
    · cases same
      exact ⟨rfl, rfl, by decide⟩
    · cases same
      decide
  refine ⟨s', ⟨_, .single ⟨enabled, by rw [State.run, run]; rfl⟩⟩, ?_, ?_, ?_, ?_, rfl⟩
  · show Function.update (State.init.reserve true).streams 0 (some 77) 0 = some 77
    rw [Function.update_self]
  · intro d ne
    show Function.update (State.init.reserve true).streams 0 (some 77) d = none
    rw [Function.update_of_ne ne, State.streams_reserve]
    rfl
  · intro d
    show Function.update (Function.update (Function.update (State.init.reserve true).isOpen 0 true)
      1 true) 1 false d = true ↔ d = 0
    simp only [Function.update_apply]
    by_cases one : d = 1
    · simp [one]
    · by_cases zero : d = 0
      · simp [zero]
      · simp [one, zero, State.isOpen_reserve, State.init]
  · exact Option.some_ne_none _

/-- The next pipe of that parent has the numbers 1 and 2. -/
theorem reachesFork_next {s : State} (isOpen : ∀ d, s.isOpen d = true ↔ d = 0)
    (allocated : s.childpid ≠ none) (bound : s.maxfd = MAXFD) {mode : Char}
    (good : ¬ badType [mode]) :
    ReachesFork s [mode] ⟨true, .ok (1, 2), .ok 78, none⟩ ∧
      s.Enabled (.popen [mode] ⟨true, .ok (1, 2), .ok 78, none⟩) := by
  obtain ⟨table, allocated⟩ := Option.ne_none_iff_exists'.mp allocated
  have same : s.reserve true = s := by
    rw [State.reserve, allocated]
    rfl
  have closed : ∀ d, d ≠ 0 → s.isOpen d = false := by
    intro d ne
    exact Bool.eq_false_iff.mpr fun isOpen' => ne ((isOpen d).mp isOpen')
  constructor
  · refine ⟨good, by simp [same, allocated], 1, 2, rfl, ?_, ?_⟩
    · rw [same, bound]
      decide
    · rw [same, bound]
      decide
  · refine ⟨fun p0 p1 ends => ?_, fun pid number => ?_⟩
    · cases ends
      exact ⟨closed 1 (by decide), closed 2 (by decide), by decide⟩
    · cases number
      decide

/-- What its descriptors refer to. -/
def onlyZero : Table Nat Char := fun d => if d = 0 then some 'a' else none

theorem onlyZero_fresh (d : Nat) : onlyZero d ≠ some 'r' ∧ onlyZero d ≠ some 'w' := by
  rw [onlyZero]
  split
  · simp
  · simp

theorem onlyZero_ne_none (d : Nat) : onlyZero d ≠ none ↔ d = 0 := by simp [onlyZero]

/-- To that parent's next stream to read from, descriptor 0 does not matter. -/
theorem popenExecl_right_read :
    ∃ s child, Reachable Step .init s ∧ s.streams 0 = some 77 ∧
      s.popenExecl onlyZero ['r']
        ⟨true, .ok (1, 2), .ok 78, none⟩ 'r' 'w' = .ok (some child) ∧
      ChildRight s onlyZero child ['r'] 'r' 'w' := by
  obtain ⟨s, reachable, stream, others, isOpen, allocated, bound⟩ := exists_stream_zero
  obtain ⟨reaches, enabled⟩ := reachesFork_next isOpen allocated bound (by decide : ¬ badType ['r'])
  obtain ⟨child, run, right⟩ := popenExecl_right_iff reachable
    (fun d => (isOpen d).trans (onlyZero_ne_none d).symm) reaches enabled rfl onlyZero_fresh
  refine ⟨s, child, reachable, stream, run, right.mpr ⟨others 1 (by decide), ?_⟩⟩
  intro d e earlier free _ same
  have first : e = 0 := by
    by_contra other
    exact earlier (others e other)
  have isOpen' : onlyZero d ≠ none := by
    rw [same, onlyZero_ne_none]
    exact first
  rw [(onlyZero_ne_none d).mp isOpen', stream] at free
  cases free

/-- Its next stream to write to has a child whose standard input is closed. -/
theorem popenExecl_closes_stdin :
    ∃ s child, Reachable Step .init s ∧ s.streams 0 = some 77 ∧
      s.popenExecl onlyZero ['w']
        ⟨true, .ok (1, 2), .ok 78, none⟩ 'r' 'w' = .ok (some child) ∧
      child STDIN_FILENO = none ∧
      ¬ ChildRight s onlyZero child ['w'] 'r' 'w' := by
  obtain ⟨s, reachable, stream, others, isOpen, allocated, bound⟩ := exists_stream_zero
  obtain ⟨reaches, enabled⟩ := reachesFork_next isOpen allocated bound (by decide : ¬ badType ['w'])
  have inv : Inv s := reachable.invariant .init fun _ _ _ inv hstep => inv.step hstep
  obtain ⟨child, p0, p1, run, -, -, descriptors⟩ :=
    @popenExecl_eq Char s onlyZero ['w'] 'r' 'w' inv _ 78 reaches enabled rfl
  have closed : child 0 = none := by
    rw [descriptors 0, if_pos (by simp [stream])]
  refine ⟨s, child, reachable, stream, run, closed, fun right => ?_⟩
  have standard : child 0 = some 'r' := right.standard
  rw [closed] at standard
  cases standard

end UnixProgramming.Popen
