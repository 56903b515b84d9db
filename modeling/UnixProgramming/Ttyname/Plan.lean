import UnixProgramming.Ttyname.Devdirs

/-!
# The search without its buffer

`searchdir` takes `pathname` to hold the path of the entry that it has copied last. Here each
path is built anew. It is cut off at a limit, or there is no limit. The buffer is right as long
as the paths fit in 256 bytes: `strncpy` fills these bytes, and what ends a path of exactly 256
bytes is the byte behind them. It is zero unless `strcat` has put a slash there, behind the name
of a directory of 256 bytes.
-/

namespace UnixProgramming.Ttyname

open CMemory Fallible
open Ftw (slash isDir)

/-- The path of an entry. -/
def join (dir name : Block) : Block := dir ++ slash :: name

/-- A path, up to a limit. -/
def cutAt : Option Nat → Block → Block
  | none, path => path
  | some limit, path => path.take limit

/-- What is left of 256 bytes behind the path of a directory. -/
abbrev room (dir : Block) : Int := POSIX_PATH_MAX - (dir.length + 1 : Nat)

/-- The names on the list, and the trace. -/
structure Plan where
  dirs : List Block
  trace : List Event
  deriving DecidableEq

namespace Plan

def log (w : Plan) (e : Event) : Plan := { w with trace := w.trace ++ [e] }

def add (w : Plan) (sys : Sys) (dirname : Block) : Plan :=
  if endsInDot dirname then w
  else if dirname = devFd then w
  else if ¬ sys.malloc w.trace.length then w
  else { w with dirs := w.dirs ++ [dirname] }

end Plan

def planEntries (sys : Sys) (fdstat : Stat) (limit : Option Nat) (dir : Block) :
    List Block → Plan → Option Block × Plan
  | [], w => (none, w)
  | name :: names, w =>
      let path := cutAt limit (join dir name)
      let w := w.log (.strncpy (room dir))
      if isAlias path then planEntries sys fdstat limit dir names w
      else
        let w := w.log (.stat dir name path)
        match sys.stat path with
        | none => planEntries sys fdstat limit dir names w
        | some devstat =>
            if isDir devstat.stMode then
              planEntries sys fdstat limit dir names (w.add sys path)
            else if devstat.sameDevice fdstat then (some path, w)
            else planEntries sys fdstat limit dir names w

def planDir (sys : Sys) (fdstat : Stat) (limit : Option Nat) (dir : Block) (w : Plan) :
    Option Block × Plan :=
  match sys.opendir dir with
  | none => (none, w.log (.opendir dir))
  | some names => planEntries sys fdstat limit dir names (w.log (.opendir dir))

/-- The loop over the list, from a position on. -/
def planList (sys : Sys) (fdstat : Stat) (limit : Option Nat) :
    Nat → Nat → Plan → Option (Option Block) × Plan
  | 0, pos, w =>
      match w.dirs[pos]? with
      | none => (some none, w)
      | some _ => (none, w)
  | rounds + 1, pos, w =>
      match w.dirs[pos]? with
      | none => (some none, w)
      | some dir =>
          match planDir sys fdstat limit dir w with
          | (some path, w) => (some (some path), w)
          | (none, w) => planList sys fdstat limit rounds (pos + 1) w

def planAll (sys : Sys) (fdstat : Stat) (limit : Option Nat) (rounds : Nat) :
    Option (Option Block) × Plan :=
  match planDir sys fdstat limit dev ⟨[], []⟩ with
  | (some path, w) => (some (some path), w)
  | (none, w) => planList sys fdstat limit rounds 0 w

/-- The trace of `ttyname_m`, if each path is built anew. -/
def planTtyname (sys : Sys) (limit : Option Nat) (rounds : Nat) : List Event :=
  if ¬ sys.isatty then []
  else
    match sys.fstat with
    | none => []
    | some fdstat =>
        if ¬ isChr fdstat.stMode then [] else (planAll sys fdstat limit rounds).2.trace

/-! ## The byte behind the first 256 -/

/-- Whether byte 256 of `pathname` is zero behind an event. -/
def Event.clear (sys : Sys) (clear : Bool) : Event → Bool
  | .opendir dir =>
      if dir.length = POSIX_PATH_MAX then (sys.opendir dir).isNone
      else if dir.length + 1 = POSIX_PATH_MAX then clear || (sys.opendir dir).isSome
      else clear
  | _ => clear

/-- The same behind a trace. In front of it, the byte is zero if `clear` says so. -/
def clearAfter (sys : Sys) (clear : Bool) (trace : List Event) : Bool :=
  trace.foldl (Event.clear sys) clear

/-- A path that the buffer can hold. -/
def Event.Fits (clear : Bool) : Event → Prop
  | .stat dir _ path => dir.length < POSIX_PATH_MAX ∧ path.length ≤ POSIX_PATH_MAX ∧
      (path.length = POSIX_PATH_MAX → clear)
  | _ => True

/-- The buffer can hold all paths of a trace. -/
def Fits (sys : Sys) : Bool → List Event → Prop
  | _, [] => True
  | clear, e :: es => e.Fits clear ∧ Fits sys (e.clear sys clear) es

instance Event.decidableFits (clear : Bool) : (e : Event) → Decidable (e.Fits clear)
  | .opendir _ => .isTrue trivial
  | .strncpy _ => .isTrue trivial
  | .stat dir _ path => inferInstanceAs (Decidable (dir.length < POSIX_PATH_MAX ∧
      path.length ≤ POSIX_PATH_MAX ∧ (path.length = POSIX_PATH_MAX → clear)))

instance decidableFits (sys : Sys) : (clear : Bool) → (trace : List Event) →
    Decidable (Fits sys clear trace)
  | _, [] => .isTrue trivial
  | clear, e :: es =>
      have := decidableFits sys (e.clear sys clear) es
      inferInstanceAs (Decidable (e.Fits clear ∧ Fits sys (e.clear sys clear) es))

section Trace

variable {sys : Sys} {trace more : List Event} {clear : Bool}

theorem clearAfter_concat (trace : List Event) (e : Event) :
    clearAfter sys clear (trace ++ [e]) = e.clear sys (clearAfter sys clear trace) := by
  rw [clearAfter, List.foldl_concat]
  rfl

theorem fits_append : Fits sys clear (trace ++ more) ↔
    Fits sys clear trace ∧ Fits sys (clearAfter sys clear trace) more := by
  induction trace generalizing clear with
  | nil => simp [Fits, clearAfter]
  | cons e trace ih => rw [List.cons_append, Fits, Fits, ih, and_assoc, clearAfter, clearAfter,
      List.foldl_cons]

theorem fits_concat (e : Event) : Fits sys clear (trace ++ [e]) ↔
    Fits sys clear trace ∧ e.Fits (clearAfter sys clear trace) := by
  rw [fits_append]
  simp [Fits]

theorem Fits.of_isPrefix (fits : Fits sys clear more) (le : trace <+: more) :
    Fits sys clear trace := by
  obtain ⟨rest, rfl⟩ := le
  exact (fits_append.mp fits).1

end Trace

/-- The count is not negative, and the string is the path up to the limit. -/
def Event.Right (limit : Option Nat) : Event → Prop
  | .opendir _ => True
  | .strncpy count => 0 ≤ count
  | .stat dir name path => path = cutAt limit (join dir name)

def Right (limit : Option Nat) (trace : List Event) : Prop := ∀ e ∈ trace, e.Right limit

theorem Right.of_isPrefix {limit : Option Nat} {trace more : List Event} (right : Right limit more)
    (le : trace <+: more) : Right limit trace :=
  fun e mem => right e (le.subset mem)

end UnixProgramming.Ttyname
