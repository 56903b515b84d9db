import Mathlib.Data.List.Range
import Mathlib.Logic.Function.Basic
import UnixProgramming.Library.CMemory
import UnixProgramming.Library.Fallible
import UnixProgramming.Library.Transition

/-!
# `popen_m` and `pclose_m` of `ipc_test.c`

The two functions keep the process numbers of the children in a table, indexed by the descriptor
of the stream. A state holds the table and its bound, and next to them what the table is about:
the open descriptors, and the streams that `popen_m` has returned and `pclose_m` has not closed,
each with the child that was forked for it. Every call of the system may fail. Descriptors are
also opened and closed by the rest of the program, except those of the streams.
-/

namespace UnixProgramming.Popen

open CMemory Fallible Transition

inductive Errno
  | einval
  | emfile
  | enomem
  | eintr
  | other (code : Nat)
  deriving DecidableEq

/-- What the theorems follow of a call. `closes` are the descriptors that the child closes
before it runs its command. -/
inductive Event
  | fork (pid : Int) (closes : List Nat)
  | fclose (fd : Nat)
  | waitpid (pid : Int) (result : Except Errno Int)

structure State where
  childpid : Option (List Int)
  maxfd : Nat
  isOpen : Nat → Bool
  streams : Nat → Option Int
  trace : List Event

/-- The results of the calls in `popen_m`. The second number of `pipe` is the writing end. -/
structure PopenOutcome where
  calloc : Bool
  pipe : Except Errno (Nat × Nat)
  fork : Except Errno Int
  fdopen : Option Errno

/-- The results of the calls in `pclose_m`. Behind the end of the list the child has ended with
status 0. -/
structure PcloseOutcome where
  fclose : Option Errno
  waits : List (Except Errno Int)

/-- The value of `maxfd` from the first call on. -/
def MAXFD : Nat := 4096

/-- A mode is one letter, `r` or `w`. -/
def badType (type : List Char) : Prop :=
  (type[0]? ≠ some 'r' ∧ type[0]? ≠ some 'w') ∨ type[1]? ≠ none

instance : DecidablePred badType := fun type =>
  inferInstanceAs (Decidable ((type[0]? ≠ some 'r' ∧ type[0]? ≠ some 'w') ∨ type[1]? ≠ none))

/-- The loop of the child over the table. -/
def childCloses (table : List Int) : List Nat → Except Fault (List Nat)
  | [] => .ok []
  | i :: is => do
      let pid ← load table i
      let closes ← childCloses table is
      return if 0 < pid then i :: closes else closes

namespace State

def init : State := ⟨none, 0, fun _ => false, fun _ => none, []⟩

def setTable (s : State) (table : List Int) : State :=
  ⟨some table, s.maxfd, s.isOpen, s.streams, s.trace⟩

def setOpen (s : State) (fd : Nat) (b : Bool) : State :=
  ⟨s.childpid, s.maxfd, Function.update s.isOpen fd b, s.streams, s.trace⟩

def setStream (s : State) (fd : Nat) (pid : Option Int) : State :=
  ⟨s.childpid, s.maxfd, s.isOpen, Function.update s.streams fd pid, s.trace⟩

def emit (s : State) (e : Event) : State :=
  ⟨s.childpid, s.maxfd, s.isOpen, s.streams, s.trace ++ [e]⟩

theorem maxfd_setOpen (s : State) (fd : Nat) (b : Bool) : (s.setOpen fd b).maxfd = s.maxfd := rfl

/-- `childpid[fd]`, and 0 where there is no such entry. -/
def entry (s : State) (fd : Nat) : Int :=
  match s.childpid with
  | none => 0
  | some table => table[fd]?.getD 0

/-- The table is allocated by the first call that gets the memory. -/
def reserve (s : State) (calloc : Bool) : State :=
  if s.childpid.isNone then
    ⟨if calloc then some (List.replicate MAXFD 0) else none, MAXFD, s.isOpen, s.streams, s.trace⟩
  else s

/-! Making the table opens and closes nothing. -/

theorem streams_reserve (s : State) (calloc : Bool) : (s.reserve calloc).streams = s.streams := by
  rw [reserve]
  split <;> rfl

theorem trace_reserve (s : State) (calloc : Bool) : (s.reserve calloc).trace = s.trace := by
  rw [reserve]
  split <;> rfl

theorem isOpen_reserve (s : State) (calloc : Bool) : (s.reserve calloc).isOpen = s.isOpen := by
  rw [reserve]
  split <;> rfl

/-- `popen_m` behind `fork`, with the child's process number. The parent closes the end of the
pipe that it does not use. -/
def popenParent (s : State) (table : List Int) (kept other : Nat) (pid : Int)
    (fdopen : Option Errno) : Except Fault (Except Errno Nat × State) := do
  let closes ← childCloses table (List.range s.maxfd)
  let s := (s.emit (.fork pid closes)).setOpen other false
  match fdopen with
  | some e => return (.error e, s)
  | none => do
      let table ← store table kept pid
      return (.ok kept, (s.setTable table).setStream kept (some pid))

/-- `popen_m` with a table. -/
def popenPipe (s : State) (table : List Int) (type : List Char) (o : PopenOutcome) :
    Except Fault (Except Errno Nat × State) :=
  match o.pipe with
  | .error e => .ok (.error e, s)
  | .ok (p0, p1) =>
      let s := (s.setOpen p0 true).setOpen p1 true
      if s.maxfd ≤ p0 ∨ s.maxfd ≤ p1 then
        .ok (.error .emfile, (s.setOpen p0 false).setOpen p1 false)
      else
        match o.fork with
        | .error e => .ok (.error e, s)
        | .ok pid =>
            if type[0]? = some 'r' then s.popenParent table p0 p1 pid o.fdopen
            else s.popenParent table p1 p0 pid o.fdopen

/-- The value is the descriptor of the stream, or `errno` where the source returns NULL. -/
def popenM (s : State) (type : List Char) (o : PopenOutcome) :
    Except Fault (Except Errno Nat × State) :=
  if badType type then .ok (.error .einval, s)
  else
    let s := s.reserve o.calloc
    match s.childpid with
    | none => .ok (.error .enomem, s)
    | some table => s.popenPipe table type o

/-- The loop of `pclose_m`. -/
def waitLoop (s : State) (pid : Int) : List (Except Errno Int) → Except Errno Int × State
  | [] => (.ok 0, s.emit (.waitpid pid (.ok 0)))
  | .ok stat :: _ => (.ok stat, s.emit (.waitpid pid (.ok stat)))
  | .error e :: waits =>
      if e ≠ .eintr then (.error e, s.emit (.waitpid pid (.error e)))
      else (s.emit (.waitpid pid (.error e))).waitLoop pid waits

/-- `fd` is the descriptor of the stream. The value is the status, or `errno` where the source
returns -1. -/
def pcloseM (s : State) (fd : Nat) (o : PcloseOutcome) :
    Except Fault (Except Errno Int × State) :=
  match s.childpid with
  | none => .ok (.error .einval, s)
  | some table =>
      if s.maxfd ≤ fd then .ok (.error .einval, s)
      else do
        let pid ← load table fd
        if pid = 0 then return (.error .einval, s)
        else
          let table ← store table fd 0
          -- the descriptor is closed, whatever `fclose` returns
          let s := (((s.setTable table).setStream fd none).setOpen fd false).emit (.fclose fd)
          match o.fclose with
          | some e => return (.error e, s)
          | none => return s.waitLoop pid o.waits

end State

inductive Action
  | popen (type : List Char) (o : PopenOutcome)
  | pclose (fd : Nat) (o : PcloseOutcome)
  | opened (fd : Nat)
  | closed (fd : Nat)

namespace State

/-- The kernel hands out descriptors that are not open and positive process numbers, and the
streams are closed by `pclose_m` only. -/
def Enabled (s : State) : Action → Prop
  | .popen _ o =>
      (∀ p0 p1, o.pipe = .ok (p0, p1) → s.isOpen p0 = false ∧ s.isOpen p1 = false ∧ p0 ≠ p1) ∧
        ∀ pid, o.fork = .ok pid → 0 < pid
  | .pclose _ _ => True
  | .opened fd => s.isOpen fd = false
  | .closed fd => s.streams fd = none

def run (s : State) : Action → Except Fault State
  | .popen type o => Prod.snd <$> s.popenM type o
  | .pclose fd o => Prod.snd <$> s.pcloseM fd o
  | .opened fd => .ok (s.setOpen fd true)
  | .closed fd => .ok (s.setOpen fd false)

end State

def Step (s : State) (act : Action) (s' : State) : Prop := s.Enabled act ∧ s.run act = .ok s'

/-- The table has its full size, and it holds the child of every open stream and nothing else. -/
structure Inv (s : State) : Prop where
  size : ∀ table, s.childpid = some table → table.length = s.maxfd
  entry : ∀ fd, s.entry fd = (s.streams fd).getD 0
  positive : ∀ fd pid, s.streams fd = some pid → 0 < pid
  opened : ∀ fd pid, s.streams fd = some pid → s.isOpen fd = true

/-- The loop of the child stays in the table. -/
theorem childCloses_eq {table : List Int} {is : List Nat} (inside : ∀ i ∈ is, i < table.length) :
    childCloses table is = .ok (is.filter fun i => 0 < table[i]?.getD 0) := by
  induction is with
  | nil => rfl
  | cons i is ih =>
      have here : i < table.length := inside i List.mem_cons_self
      have later := ih fun j mem => inside j (List.mem_cons_of_mem i mem)
      by_cases child : 0 < table[i]
      · simp [childCloses, load, here, later, child]
      · simp [childCloses, load, here, later, child]

namespace Inv

variable {s : State} {table : List Int} {fd : Nat}

theorem init : Inv .init where
  size := by simp [State.init]
  entry _ := rfl
  positive := by simp [State.init]
  opened := by simp [State.init]

theorem entry_eq (inv : Inv s) (allocated : s.childpid = some table) (fd : Nat) :
    table[fd]?.getD 0 = (s.streams fd).getD 0 := by
  rw [← inv.entry fd, State.entry, allocated]

theorem reserve (inv : Inv s) (calloc : Bool) : Inv (s.reserve calloc) := by
  rw [State.reserve]
  split
  · rename_i absent
    have before : ∀ fd, (s.streams fd).getD 0 = 0 := by
      intro fd
      rw [← inv.entry fd, State.entry, Option.isNone_iff_eq_none.mp absent]
    constructor
    case size =>
      intro table allocated
      cases calloc with
      | true =>
          cases allocated
          exact List.length_replicate
      | false => cases allocated
    case entry =>
      intro fd
      rw [before fd]
      cases calloc with
      | true =>
          show (List.replicate MAXFD (0 : Int))[fd]?.getD 0 = 0
          rw [List.getElem?_replicate]
          split <;> rfl
      | false => rfl
    case positive => exact inv.positive
    case opened => exact inv.opened
  · exact inv

theorem emit (inv : Inv s) (e : Event) : Inv (s.emit e) :=
  ⟨inv.size, inv.entry, inv.positive, inv.opened⟩

theorem open_fd (inv : Inv s) (fd : Nat) : Inv (s.setOpen fd true) where
  size := inv.size
  entry := inv.entry
  positive := inv.positive
  opened d pid stream := by
    by_cases same : d = fd
    · subst same
      exact Function.update_self d true s.isOpen
    · exact (Function.update_of_ne same true s.isOpen).trans (inv.opened d pid stream)

theorem close_fd (inv : Inv s) (free : s.streams fd = none) : Inv (s.setOpen fd false) where
  size := inv.size
  entry := inv.entry
  positive := inv.positive
  opened d pid stream := by
    have ne : d ≠ fd := by
      rintro rfl
      have stream : s.streams d = some pid := stream
      rw [free] at stream
      cases stream
    exact (Function.update_of_ne ne false s.isOpen).trans (inv.opened d pid stream)

/-- The streams behind an assignment. -/
theorem stream_cases {pid : Option Int} {d : Nat} {p : Int}
    (stream : Function.update s.streams fd pid d = some p) :
    d = fd ∧ pid = some p ∨ s.streams d = some p := by
  by_cases same : d = fd
  · subst same
    rw [Function.update_self] at stream
    exact .inl ⟨rfl, stream⟩
  · rw [Function.update_of_ne same] at stream
    exact .inr stream

/-- A store to an entry of the table, for a new stream or for one that is closed. -/
theorem assign (inv : Inv s) (allocated : s.childpid = some table) (inside : fd < s.maxfd)
    (pid : Option Int) (positive : ∀ p, pid = some p → 0 < p ∧ s.isOpen fd = true) :
    ∃ table', store table fd (pid.getD 0) = .ok table' ∧
      Inv ((s.setTable table').setStream fd pid) := by
  have size := inv.size table allocated
  have inTable : fd < table.length := by omega
  refine ⟨table.set fd (pid.getD 0), if_pos inTable, ?_⟩
  constructor
  case size =>
    intro table' same
    cases same
    rw [List.length_set]
    exact size
  case entry =>
    intro d
    show (table.set fd (pid.getD 0))[d]?.getD 0 = (Function.update s.streams fd pid d).getD 0
    by_cases same : d = fd
    · subst same
      rw [List.getElem?_set_self inTable, Function.update_self]
      rfl
    · rw [List.getElem?_set_ne (Ne.symm same), Function.update_of_ne same,
        inv.entry_eq allocated]
  case positive =>
    intro d p stream
    obtain ⟨rfl, new⟩ | old := stream_cases stream
    · exact (positive p new).1
    · exact inv.positive d p old
  case opened =>
    intro d p stream
    obtain ⟨rfl, new⟩ | old := stream_cases stream
    · exact (positive p new).2
    · exact inv.opened d p old

end Inv

/-- What a call of `popen_m` does. It fails, with the child running where `fdopen` fails, or it
opens a stream for the child. The child closes the other streams. -/
inductive Opens (s : State) (o : PopenOutcome) : Except Errno Nat → State → Prop
  | failed {e : Errno} {s' : State} (streams : s'.streams = s.streams)
      (trace : s'.trace = s.trace ∨
        ∃ pid closes, o.fork = .ok pid ∧ s'.trace = s.trace ++ [.fork pid closes]) :
      Opens s o (.error e) s'
  | opened {fd : Nat} {pid : Int} {closes : List Nat} {s' : State} (new : s.streams fd = none)
      (fork : o.fork = .ok pid) (streams : s'.streams = Function.update s.streams fd (some pid))
      (trace : s'.trace = s.trace ++ [.fork pid closes])
      (others : ∀ d, d ∈ closes ↔ s.streams d ≠ none) :
      Opens s o (.ok fd) s'

/-- Only the streams and the trace matter. -/
theorem Opens.congr {s s₀ s' : State} {o : PopenOutcome} {ret : Except Errno Nat}
    (h : Opens s o ret s') (streams : s.streams = s₀.streams) (trace : s.trace = s₀.trace) :
    Opens s₀ o ret s' := by
  cases h with
  | failed streams' trace' => exact .failed (streams ▸ streams') (trace ▸ trace')
  | opened new fork streams' trace' others =>
      exact .opened (streams ▸ new) fork (streams ▸ streams') (trace ▸ trace') (streams ▸ others)

namespace Inv

variable {s : State} {table : List Int} {fd : Nat}

/-- The child closes the descriptors of all open streams. -/
theorem childCloses (inv : Inv s) (allocated : s.childpid = some table) :
    ∃ closes, Popen.childCloses table (List.range s.maxfd) = .ok closes ∧
      ∀ d, d ∈ closes ↔ s.streams d ≠ none := by
  have size := inv.size table allocated
  refine ⟨_, childCloses_eq fun i mem => size ▸ List.mem_range.mp mem, fun d => ?_⟩
  rw [List.mem_filter, List.mem_range, inv.entry_eq allocated]
  constructor
  · rintro ⟨-, child⟩ closed
    simp [closed] at child
  · intro stream
    obtain ⟨pid, stream⟩ := Option.ne_none_iff_exists'.mp stream
    have positive := inv.positive d pid stream
    have nonzero := inv.entry_eq allocated d
    refine ⟨?_, by simpa [stream] using positive⟩
    by_contra outside
    rw [List.getElem?_eq_none (by omega), stream] at nonzero
    have : (0 : Int) = pid := nonzero
    omega

theorem popenParent (inv : Inv s) (allocated : s.childpid = some table) {kept other : Nat}
    (inside : kept < s.maxfd) (distinct : kept ≠ other) (isOpen : s.isOpen kept = true)
    (newKept : s.streams kept = none) (newOther : s.streams other = none) {o : PopenOutcome}
    {pid : Int} (fork : o.fork = .ok pid) (positive : 0 < pid) :
    ∃ ret s', s.popenParent table kept other pid o.fdopen = .ok (ret, s') ∧ Inv s' ∧
      Opens s o ret s' := by
  obtain ⟨closes, loop, others⟩ := inv.childCloses allocated
  have inv' : Inv ((s.emit (.fork pid closes)).setOpen other false) :=
    (inv.emit (.fork pid closes)).close_fd newOther
  cases result : o.fdopen with
  | some e =>
      refine ⟨.error e, _, ?_, inv', .failed rfl (.inr ⟨pid, closes, fork, rfl⟩)⟩
      rw [State.popenParent, loop]
      rfl
  | none =>
      have stillOpen : ((s.emit (.fork pid closes)).setOpen other false).isOpen kept = true := by
        show Function.update s.isOpen other false kept = true
        rw [Function.update_of_ne distinct, isOpen]
      obtain ⟨table', stored, inv''⟩ := inv'.assign allocated inside (some pid)
        fun p same => by cases same; exact ⟨positive, stillOpen⟩
      refine ⟨.ok kept, _, ?_, inv'', .opened newKept fork rfl rfl others⟩
      have stored : store table kept pid = .ok table' := stored
      rw [State.popenParent, loop]
      simp only [ok_bind, stored]
      rfl

theorem popenPipe (inv : Inv s) (allocated : s.childpid = some table) (type : List Char)
    {o : PopenOutcome} (enabled : s.Enabled (.popen type o)) :
    ∃ ret s', s.popenPipe table type o = .ok (ret, s') ∧ Inv s' ∧ Opens s o ret s' := by
  obtain ⟨fresh, positive⟩ := enabled
  rw [State.popenPipe]
  cases pipe : o.pipe with
  | error e => exact ⟨_, s, rfl, inv, .failed rfl (.inl rfl)⟩
  | ok ends =>
      obtain ⟨p0, p1⟩ := ends
      obtain ⟨fresh0, fresh1, distinct⟩ := fresh p0 p1 pipe
      have new : ∀ p, s.isOpen p = false → s.streams p = none := by
        intro p closed
        cases stream : s.streams p with
        | none => rfl
        | some pid =>
            have isOpen := inv.opened p pid stream
            rw [closed] at isOpen
            cases isOpen
      have inv' : Inv ((s.setOpen p0 true).setOpen p1 true) := (inv.open_fd p0).open_fd p1
      by_cases large : s.maxfd ≤ p0 ∨ s.maxfd ≤ p1
      · refine ⟨_, _, if_pos large, ?_, .failed rfl (.inl rfl)⟩
        exact (inv'.close_fd (new p0 fresh0)).close_fd (new p1 fresh1)
      · have inside : p0 < s.maxfd ∧ p1 < s.maxfd := by omega
        have open0 : ((s.setOpen p0 true).setOpen p1 true).isOpen p0 = true := by
          simp [State.setOpen, Function.update_of_ne distinct]
        have open1 : ((s.setOpen p0 true).setOpen p1 true).isOpen p1 = true := by
          simp [State.setOpen]
        dsimp only
        rw [State.maxfd_setOpen, State.maxfd_setOpen, if_neg large]
        cases fork : o.fork with
        | error e => exact ⟨_, _, rfl, inv', .failed rfl (.inl rfl)⟩
        | ok pid =>
            dsimp only
            by_cases reading : type[0]? = some 'r'
            · rw [if_pos reading]
              obtain ⟨ret, s', result, inv'', opens⟩ := inv'.popenParent allocated inside.1 distinct
                open0 (new p0 fresh0) (new p1 fresh1) fork (positive pid fork)
              exact ⟨ret, s', result, inv'', opens.congr rfl rfl⟩
            · rw [if_neg reading]
              obtain ⟨ret, s', result, inv'', opens⟩ := inv'.popenParent allocated inside.2
                (Ne.symm distinct) open1 (new p1 fresh1) (new p0 fresh0) fork (positive pid fork)
              exact ⟨ret, s', result, inv'', opens.congr rfl rfl⟩

/-- Every call of `popen_m` runs to its end. -/
theorem popen (inv : Inv s) (type : List Char) {o : PopenOutcome}
    (enabled : s.Enabled (.popen type o)) :
    ∃ ret s', s.popenM type o = .ok (ret, s') ∧ Inv s' ∧ Opens s o ret s' := by
  rw [State.popenM]
  by_cases bad : badType type
  · exact ⟨_, s, if_pos bad, inv, .failed rfl (.inl rfl)⟩
  · rw [if_neg bad]
    have inv' := inv.reserve o.calloc
    have streams := s.streams_reserve o.calloc
    have trace := s.trace_reserve o.calloc
    dsimp only
    cases allocated : (s.reserve o.calloc).childpid with
    | none => exact ⟨_, _, rfl, inv', .failed streams (.inl trace)⟩
    | some table =>
        have enabled' : (s.reserve o.calloc).Enabled (.popen type o) := by
          rw [State.Enabled, State.isOpen_reserve]
          exact enabled
        obtain ⟨ret, s', result, inv'', opens⟩ := inv'.popenPipe allocated type enabled'
        exact ⟨ret, s', result, inv'', opens.congr streams trace⟩

end Inv

/-- The calls of `waitpid` in one run of the loop: all but the last one are interrupted. -/
structure Waits (s : State) (pid : Int) (last : Except Errno Int) (s' : State) : Prop where
  notInterrupted : last ≠ .error .eintr
  streams : s'.streams = s.streams
  trace : ∃ count, s'.trace = s.trace ++
    (List.replicate count (.waitpid pid (.error .eintr)) ++ [.waitpid pid last])

/-- The loop of `pclose_m` waits for the child that it is given, and for no other. -/
theorem waitLoop_spec {s : State} (inv : Inv s) (pid : Int) (waits : List (Except Errno Int)) :
    ∃ ret s', s.waitLoop pid waits = (ret, s') ∧ Inv s' ∧ Waits s pid ret s' := by
  induction waits generalizing s with
  | nil =>
      exact ⟨_, _, rfl, inv.emit _, by simp, rfl, 0, rfl⟩
  | cons result waits ih =>
      cases result with
      | ok stat => exact ⟨_, _, rfl, inv.emit _, by simp, rfl, 0, rfl⟩
      | error e =>
          by_cases final : e ≠ .eintr
          · exact ⟨_, _, if_pos final, inv.emit _, by simpa using final, rfl, 0, rfl⟩
          · obtain rfl : e = .eintr := not_not.mp final
            obtain ⟨ret, s', loop, inv', last, streams, count, trace⟩ := ih (inv.emit _)
            refine ⟨ret, s', (if_neg final).trans loop, inv', last, streams, count + 1, ?_⟩
            rw [trace, List.replicate_succ]
            simp [State.emit]

/-- What a call of `pclose_m` does: nothing for a descriptor without a stream, and otherwise it
closes the stream and then waits for its child, unless `fclose` fails. -/
inductive Closes (s : State) (fd : Nat) (o : PcloseOutcome) : Except Errno Int → State → Prop
  | refused (noStream : s.streams fd = none) : Closes s fd o (.error .einval) s
  | failed {pid : Int} {e : Errno} {s' : State} (stream : s.streams fd = some pid)
      (fclose : o.fclose = some e) (streams : s'.streams = Function.update s.streams fd none)
      (trace : s'.trace = s.trace ++ [.fclose fd]) : Closes s fd o (.error e) s'
  | waited {pid : Int} {ret : Except Errno Int} {closed s' : State}
      (stream : s.streams fd = some pid) (fclose : o.fclose = none)
      (streams : s'.streams = Function.update s.streams fd none)
      (trace : closed.trace = s.trace ++ [.fclose fd]) (waits : Waits closed pid ret s') :
      Closes s fd o ret s'

theorem Inv.entry_eq_zero_iff {s : State} (inv : Inv s) (fd : Nat) :
    s.entry fd = 0 ↔ s.streams fd = none := by
  rw [inv.entry fd]
  cases stream : s.streams fd with
  | none => simp
  | some pid =>
      have positive := inv.positive fd pid stream
      simp only [Option.getD_some, reduceCtorEq, iff_false]
      omega

/-- Every call of `pclose_m` runs to its end. -/
theorem Inv.pclose {s : State} (inv : Inv s) (fd : Nat) (o : PcloseOutcome) :
    ∃ ret s', s.pcloseM fd o = .ok (ret, s') ∧ Inv s' ∧ Closes s fd o ret s' := by
  have refused := inv.entry_eq_zero_iff fd
  rw [State.pcloseM]
  cases allocated : s.childpid with
  | none =>
      rw [State.entry, allocated] at refused
      exact ⟨_, s, rfl, inv, .refused (refused.mp rfl)⟩
  | some table =>
      rw [State.entry, allocated] at refused
      have size := inv.size table allocated
      by_cases large : s.maxfd ≤ fd
      · refine ⟨_, s, if_pos large, inv, .refused (refused.mp ?_)⟩
        show table[fd]?.getD 0 = 0
        rw [List.getElem?_eq_none (by omega)]
        rfl
      · have inside : fd < table.length := by omega
        have loaded : load table fd = .ok (table[fd]?.getD 0) := by simp [load, inside]
        dsimp only
        rw [if_neg large, loaded, ok_bind]
        by_cases free : table[fd]?.getD 0 = 0
        · exact ⟨_, s, if_pos free, inv, .refused (refused.mp free)⟩
        · obtain ⟨pid, stream⟩ := Option.ne_none_iff_exists'.mp (mt refused.mpr free)
          have child : table[fd]?.getD 0 = pid := by rw [inv.entry_eq allocated, stream]; rfl
          obtain ⟨table', stored, assigned⟩ := inv.assign allocated (by omega : fd < s.maxfd) none
            (by simp)
          have noStream : ((s.setTable table').setStream fd none).streams fd = none := by
            simp [State.setStream]
          have inv' := (assigned.close_fd noStream).emit (.fclose fd)
          have stored : store table fd 0 = .ok table' := stored
          rw [if_neg free, stored, ok_bind, child]
          cases fclose : o.fclose with
          | some e => exact ⟨_, _, rfl, inv', .failed stream fclose rfl rfl⟩
          | none =>
              obtain ⟨ret, s', loop, inv'', waits⟩ := waitLoop_spec inv' pid o.waits
              exact ⟨ret, s', congrArg Except.ok loop, inv'',
                .waited stream fclose waits.streams rfl waits⟩

theorem Inv.step {s s' : State} {act : Action} (inv : Inv s) (hstep : Step s act s') : Inv s' := by
  obtain ⟨enabled, result⟩ := hstep
  cases act with
  | popen type o =>
      obtain ⟨ret, s₁, run, inv', -⟩ := inv.popen type enabled
      rw [State.run, run] at result
      cases result
      exact inv'
  | pclose fd o =>
      obtain ⟨ret, s₁, run, inv', -⟩ := inv.pclose fd o
      rw [State.run, run] at result
      cases result
      exact inv'
  | opened fd =>
      cases result
      exact inv.open_fd fd
  | closed fd =>
      cases result
      exact inv.close_fd enabled

/-- The table says which streams are open and which children belong to them, and both functions
run to their ends with the effects that the table promises. -/
structure TableRight (s : State) : Prop where
  size : ∀ table, s.childpid = some table → table.length = s.maxfd
  nonzero : ∀ fd, s.entry fd ≠ 0 ↔ s.streams fd ≠ none
  child : ∀ fd pid, s.streams fd = some pid → s.entry fd = pid
  popens : ∀ type o, s.Enabled (.popen type o) →
    ∃ ret s', s.popenM type o = .ok (ret, s') ∧ Opens s o ret s'
  pcloses : ∀ fd o, ∃ ret s', s.pcloseM fd o = .ok (ret, s') ∧ Closes s fd o ret s'

/-- The table is right behind every sequence of calls, whichever calls of the system fail. -/
theorem table_right {s : State} (h : Reachable Step .init s) : TableRight s := by
  have inv : Inv s := h.invariant .init fun _ _ _ inv hstep => inv.step hstep
  constructor
  case size => exact inv.size
  case nonzero =>
    intro fd
    exact not_congr (inv.entry_eq_zero_iff fd)
  case child =>
    intro fd pid stream
    rw [inv.entry fd, stream]
    rfl
  case popens =>
    intro type o enabled
    obtain ⟨ret, s', run, -, opens⟩ := inv.popen type enabled
    exact ⟨ret, s', run, opens⟩
  case pcloses =>
    intro fd o
    obtain ⟨ret, s', run, -, closes⟩ := inv.pclose fd o
    exact ⟨ret, s', run, closes⟩

/-- A stream to read from on descriptor 3. -/
theorem table_right_read :
    ∃ s, Reachable Step .init s ∧ s.streams 3 = some 77 ∧ TableRight s := by
  have inv : Inv (State.init.reserve true) := Inv.init.reserve true
  obtain ⟨closes, loop, -⟩ := inv.childCloses rfl
  have enabled : State.init.Enabled (.popen ['r'] ⟨true, .ok (3, 4), .ok 77, none⟩) := by
    constructor
    · intro p0 p1 h
      cases h
      decide
    · intro pid h
      cases h
      decide
  have run : ∃ s, State.init.popenM ['r'] ⟨true, .ok (3, 4), .ok 77, none⟩ = .ok (.ok 3, s) ∧
      s.streams 3 = some 77 := by
    have stored : store (List.replicate MAXFD (0 : Int)) 3 77 =
        .ok ((List.replicate MAXFD 0).set 3 77) :=
      if_pos (by rw [List.length_replicate]; decide)
    let s : State := ((State.init.reserve true).setOpen 3 true).setOpen 4 true
    refine ⟨(((s.emit (.fork 77 closes)).setOpen 4 false).setTable
      ((List.replicate MAXFD 0).set 3 77)).setStream 3 (some 77), ?_, by simp [State.setStream]⟩
    show s.popenParent (List.replicate MAXFD 0) 3 4 77 none = _
    rw [State.popenParent, State.maxfd_setOpen, State.maxfd_setOpen, loop]
    simp only [ok_bind, stored]
    rfl
  obtain ⟨s, run, stream⟩ := run
  have step : Step .init (.popen ['r'] ⟨true, .ok (3, 4), .ok 77, none⟩) s :=
    ⟨enabled, by rw [State.run, run]; rfl⟩
  exact ⟨s, ⟨_, .single step⟩, stream, table_right ⟨_, .single step⟩⟩

end UnixProgramming.Popen
