import UnixProgramming.Ftw.Dopath
import UnixProgramming.Library.Linked
import Mathlib.Logic.Function.Basic

/-!
# `ttyname_m` of `term_io.c`

`searchdir` builds the path of each entry of a directory in the static buffer `pathname` and
calls `stat` for it. `add` appends directories to the list of `struct devdir` that `ttyname_m`
walks, so that the list grows while it is walked. The value of `searchdir` is `pathname` or the
null pointer, which is a `Bool` here.

The file system does not change during a run. `malloc` may fail in each call of `add`. The trace
has the names that `opendir` gets, the counts that `strncpy` gets, and the strings that `stat`
gets, with the directory and the entry that they are for. A run stops after a number of rounds of
the loop in `ttyname_m`, without a value if there is something left to do.
-/

namespace UnixProgramming.Ttyname

open CMemory Fallible Linked
open Ftw (Mode S_IFMT NAME_MAX isDir slash isDot)

abbrev Addr := Nat

def POSIX_PATH_MAX : Nat := 256

/-- The size of `pathname`. -/
def PATHNAME_SIZE : Nat := POSIX_PATH_MAX + 14

def dev : Block := ascii "/dev"

def devFd : Block := ascii "/dev/fd"

/-- The names that `searchdir` skips. -/
def aliases : List Block := [ascii "/dev/stdin", ascii "/dev/stdout", ascii "/dev/stderr"]

def isAlias (path : Block) : Prop := path ∈ aliases

instance : DecidablePred isAlias := fun path => inferInstanceAs (Decidable (path ∈ aliases))

structure Stat where
  stMode : Mode
  stIno : Nat
  stDev : Nat
  stRdev : Nat
  deriving DecidableEq

/-- `S_ISCHR`. -/
def isChr (mode : Mode) : Prop := mode &&& S_IFMT = Ftw.Kind.chr.mode

instance : DecidablePred isChr := fun mode =>
  inferInstanceAs (Decidable (mode &&& S_IFMT = Ftw.Kind.chr.mode))

/-- The comparison of `searchdir`. -/
def Stat.sameDevice (st fdstat : Stat) : Prop :=
  st.stIno = fdstat.stIno ∧ st.stDev = fdstat.stDev ∧ st.stRdev = fdstat.stRdev

instance (st fdstat : Stat) : Decidable (st.sameDevice fdstat) :=
  inferInstanceAs (Decidable (_ ∧ _ ∧ _))

/-- The file system by path, the calls for the descriptor, and whether there is memory in a call
of `add` that comes behind a trace of some length. -/
structure Sys where
  opendir : Block → Option (List Block)
  names : ∀ dir names, opendir dir = some names → names.Nodup ∧
    ∀ name ∈ names, name ≠ [] ∧ 0 ∉ name ∧ slash ∉ name ∧ name.length ≤ NAME_MAX
  stat : Block → Option Stat
  isatty : Bool
  fstat : Option Stat
  malloc : Nat → Bool

/-- `struct devdir`. -/
structure Devdir where
  dNext : Option Addr
  dName : Block
  deriving DecidableEq

inductive Event
  | opendir (dir : Block)
  | strncpy (count : Int)
  | stat (dir name path : Block)
  deriving DecidableEq

/-- The static variables, the memory of the list, and the trace. Addresses that have been given
out lie below `brk`. -/
structure Search where
  pathname : Block
  heap : Addr → Option Devdir
  brk : Nat
  head : Option Addr
  tail : Option Addr
  trace : List Event

inductive Stop
  | fault (f : Fault)
  | useAfterFree (a : Addr)
  | endless
  deriving DecidableEq

def access {α : Type} : Except Fault α → Except Stop α := Except.mapError Stop.fault

@[simp] theorem access_ok {α : Type} (x : α) : access (.ok x) = .ok x := rfl

namespace Search

def log (s : Search) (e : Event) : Search := { s with trace := s.trace ++ [e] }

def setPathname (s : Search) (pathname : Block) : Search := { s with pathname }

def read (s : Search) (a : Addr) : Except Stop Devdir :=
  match s.heap a with
  | some ddp => .ok ddp
  | none => .error (.useAfterFree a)

def store (s : Search) (a : Addr) (ddp : Devdir) : Search :=
  { s with heap := Function.update s.heap a (some ddp) }

def free (s : Search) (a : Addr) : Search := { s with heap := Function.update s.heap a none }

/-- `malloc` and `strdup` for a new cell, which gets the address `brk`. -/
def alloc (s : Search) (dirname : Block) : Search :=
  { s with heap := Function.update s.heap s.brk (some ⟨none, dirname⟩), brk := s.brk + 1 }

@[simp] theorem heap_store (s : Search) (a : Addr) (ddp : Devdir) :
    (s.store a ddp).heap = Function.update s.heap a (some ddp) := rfl

@[simp] theorem heap_alloc (s : Search) (dirname : Block) :
    (s.alloc dirname).heap = Function.update s.heap s.brk (some ⟨none, dirname⟩) := rfl

/-- The `d_next` fields. -/
def links (s : Search) : Links Addr := fun a => (s.heap a).map Devdir.dNext

/-- As the loader initialises it. -/
def zero : Search := ⟨List.replicate PATHNAME_SIZE 0, fun _ => none, 0, none, none, []⟩

end Search

/-- The test of `add` for `.` and `..`, which looks at the last three bytes. -/
def endsInDot (dirname : Block) : Prop :=
  dirname[dirname.length - 1]? = some 46 ∧ (dirname[dirname.length - 2]? = some slash ∨
    dirname[dirname.length - 2]? = some 46 ∧ dirname[dirname.length - 3]? = some slash)

instance : DecidablePred endsInDot := fun dirname =>
  inferInstanceAs (Decidable (dirname[dirname.length - 1]? = some 46 ∧
    (dirname[dirname.length - 2]? = some slash ∨
      dirname[dirname.length - 2]? = some 46 ∧ dirname[dirname.length - 3]? = some slash)))

/-- The insertion at the tail, in `add`. -/
def Search.append (s : Search) (dirname : Block) : Except Stop Search :=
  let ddp := s.brk
  let s := s.alloc dirname
  match s.tail with
  | none => return { s with head := some ddp, tail := some ddp }
  | some last => do
      let cell ← s.read last
      return { s.store last { cell with dNext := some ddp } with tail := some ddp }

def add (sys : Sys) (dirname : Block) (s : Search) : Except Stop Search :=
  if endsInDot dirname then return s
  else if dirname = devFd then return s
  else if ¬ sys.malloc s.trace.length then return s
  else s.append dirname

/-- The loop of `searchdir` over the entries of `dirname`. -/
def readEntries (sys : Sys) (fdstat : Stat) (dirname : Block) (devlen : Nat) :
    List Block → Search → Except Stop (Bool × Search)
  | [], s => return (false, s)
  | name :: names, s => do
      -- `strncpy` takes the `int` as a `size_t`
      let count : Int := POSIX_PATH_MAX - devlen
      let s := s.log (.strncpy count)
      let pathname ← access (strncpy s.pathname devlen name (BitVec.ofInt 64 count).toNat)
      let s := s.setPathname pathname
      let path ← access (readString s.pathname)
      if isAlias path then readEntries sys fdstat dirname devlen names s
      else
        let s := s.log (.stat dirname name path)
        match sys.stat path with
        | none => readEntries sys fdstat dirname devlen names s
        | some devstat =>
            if isDir devstat.stMode then do
              let s ← add sys path s
              readEntries sys fdstat dirname devlen names s
            else if devstat.sameDevice fdstat then return (true, s)
            else readEntries sys fdstat dirname devlen names s

def searchdir (sys : Sys) (fdstat : Stat) (dirname : Block) (s : Search) :
    Except Stop (Bool × Search) := do
  let pathname ← access (storeRange s.pathname 0 (dirname ++ [0]))
  let s := (s.setPathname pathname).log (.opendir dirname)
  match sys.opendir dirname with
  | none => return (false, s)
  | some names => do
      let path ← access (readString s.pathname)
      let pathname ← access (storeRange s.pathname path.length [slash, 0])
      let s := s.setPathname pathname
      let path ← access (readString s.pathname)
      readEntries sys fdstat dirname path.length names s

/-- The loop of `ttyname_m` over the list. -/
def searchList (sys : Sys) (fdstat : Stat) : Nat → Option Addr → Search →
    Except Stop (Option Bool × Search)
  | _, none, s => return (some false, s)
  | 0, some _, s => return (none, s)
  | rounds + 1, some ddp, s => do
      let cell ← s.read ddp
      let (rval, s) ← searchdir sys fdstat cell.dName s
      if rval then return (some true, s)
      else do
        let cell ← s.read ddp
        searchList sys fdstat rounds cell.dNext s

/-- The loop of `cleanup`. -/
def freeList : Nat → Option Addr → Search → Except Stop Search
  | _, none, s => return s
  | 0, some _, _ => .error .endless
  | fuel + 1, some ddp, s => do
      let cell ← s.read ddp
      freeList fuel cell.dNext (s.free ddp)

def cleanup (s : Search) : Except Stop Search := do
  let s ← freeList s.brk s.head s
  return { s with head := none, tail := none }

/-- The search of `ttyname_m`, behind its checks of the descriptor. -/
def searchAll (sys : Sys) (fdstat : Stat) (rounds : Nat) (s : Search) :
    Except Stop (Option Bool × Search) := do
  let (rval, s) ← searchdir sys fdstat dev s
  if rval then return (some true, s) else searchList sys fdstat rounds s.head s

def ttynameM (sys : Sys) (rounds : Nat) (s : Search) : Except Stop (Option Bool × Search) :=
  if ¬ sys.isatty then return (some false, s)
  else
    match sys.fstat with
    | none => return (some false, s)
    | some fdstat =>
        if ¬ isChr fdstat.stMode then return (some false, s)
        else do
          let (rval, s) ← searchAll sys fdstat rounds s
          match rval with
          | none => return (none, s)
          | some rval => do
              let s ← cleanup s
              return (some rval, s)

/-- `ttyname_m` behind its checks of the descriptor. -/
theorem ttynameM_eq {sys : Sys} {fdstat : Stat} (tty : sys.isatty = true)
    (stat : sys.fstat = some fdstat) (chr : isChr fdstat.stMode) (rounds : Nat) (s : Search) :
    ttynameM sys rounds s = (do
      let (rval, s) ← searchAll sys fdstat rounds s
      match rval with
      | none => return (none, s)
      | some rval => do
          let s ← cleanup s
          return (some rval, s)) := by
  rw [ttynameM, if_neg (not_not.mpr tty), stat]
  exact if_neg (not_not.mpr chr)

end UnixProgramming.Ttyname
