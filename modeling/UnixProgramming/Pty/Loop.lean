import UnixProgramming.Library.CMemory
import UnixProgramming.Library.Transition

/-!
# `loop2` of `term_io.c`

The child copies standard input to the master side of the terminal, the parent copies what comes
back to standard output. Each tells the other with `SIGTERM` when it is done. The parent installs
its handler behind the `fork`, with `signal`: whether the handler ends a `read` or the `read`
goes on behind it is up to the implementation. A signal that comes in front of the `read` does
not end it in any case. Where nobody reads standard output any more, a `write` of the parent
raises `SIGPIPE`, which ends it.
-/

namespace UnixProgramming.Pty

open CMemory Transition

def BUFFERSIZE : Nat := 4096

/-- How far the child is. With `undefined` it has told `writen` to write -1 bytes. -/
inductive ChildPc
  | reading
  | writing (rest : Block)
  | notify
  | exiting
  | exited
  | killed
  | undefined
  deriving DecidableEq

inductive ParentPc
  | installing
  | reading
  | writing (rest : Block)
  | telling
  | returned
  | killed
  | brokenPipe
  deriving DecidableEq

/-- Both processes, their pending `SIGTERM`s, and what each has read and written. `stopped` says
that a `read` of the parent has met the end or an error. -/
structure Copying where
  child : ChildPc
  childPending : Bool
  childGot : Block
  childSent : Block
  parent : ParentPc
  parentPending : Bool
  installed : Bool
  sigcaught : Bool
  stopped : Bool
  parentGot : Block
  parentSent : Block

inductive CopyAction
  | childRead (bytes : Block)
  | childEof
  | childReadFails
  | childWrite (count : Nat)
  | childWriteFails
  | childNotify
  | childExit
  | childSigterm
  | parentInstall
  | parentRead (bytes : Block)
  | parentStop
  | parentWrite (count : Nat)
  | parentWriteFails
  | parentSigpipe
  | parentSigterm (inRead : Bool)
  | parentTell
  deriving DecidableEq

namespace Copying

/-- Behind the `fork`. -/
def init : Copying where
  child := .reading
  childPending := false
  childGot := []
  childSent := []
  parent := .installing
  parentPending := false
  installed := false
  sigcaught := false
  stopped := false
  parentGot := []
  parentSent := []

/-- What a `read` into `buf` can store. -/
def Fits (bytes : Block) : Prop := 0 < bytes.length ∧ bytes.length ≤ BUFFERSIZE

instance : DecidablePred Fits := fun bytes =>
  inferInstanceAs (Decidable (0 < bytes.length ∧ bytes.length ≤ BUFFERSIZE))

def ChildLive : ChildPc → Bool
  | .exited | .killed | .undefined => false
  | .reading | .writing _ | .notify | .exiting => true

/-- Where a process goes on behind a `write` that leaves `rest`. -/
def childNext (rest : Block) : ChildPc := if rest = [] then .reading else .writing rest

def parentNext (rest : Block) : ParentPc := if rest = [] then .reading else .writing rest

/-- The handler, or the end of the process. -/
def sigterm (restarts inRead : Bool) (s : Copying) : Copying :=
  if s.installed then
    { s with
      parentPending := false
      sigcaught := true
      parent := if inRead && !restarts && s.parent = .reading then .telling else s.parent }
  else { s with parentPending := false, parent := .killed }

def step (restarts ignoreeof : Bool) (s : Copying) : CopyAction → Option Copying
  | .childRead bytes =>
      if s.child = .reading ∧ Fits bytes then
        some { s with child := .writing bytes, childGot := s.childGot ++ bytes }
      else none
  | .childEof =>
      if s.child = .reading then
        some { s with child := if ignoreeof then .exiting else .notify }
      else none
  | .childReadFails => if s.child = .reading then some { s with child := .undefined } else none
  | .childWrite count =>
      match s.child with
      | .writing rest =>
          if 0 < count ∧ count ≤ rest.length then
            some { s with
              child := childNext (rest.drop count)
              childSent := s.childSent ++ rest.take count }
          else none
      | _ => none
  -- err_sys("writen failed")
  | .childWriteFails =>
      match s.child with
      | .writing _ => some { s with child := .reading }
      | _ => none
  | .childNotify =>
      if s.child = .notify then some { s with child := .exiting, parentPending := true } else none
  | .childExit => if s.child = .exiting then some { s with child := .exited } else none
  | .childSigterm =>
      if s.childPending = true ∧ ChildLive s.child = true then
        some { s with child := .killed, childPending := false }
      else none
  | .parentInstall =>
      if s.parent = .installing then some { s with parent := .reading, installed := true } else none
  | .parentRead bytes =>
      if s.parent = .reading ∧ Fits bytes then
        some { s with parent := .writing bytes, parentGot := s.parentGot ++ bytes }
      else none
  | .parentStop =>
      if s.parent = .reading then some { s with parent := .telling, stopped := true } else none
  | .parentWrite count =>
      match s.parent with
      | .writing rest =>
          if 0 < count ∧ count ≤ rest.length then
            some { s with
              parent := parentNext (rest.drop count)
              parentSent := s.parentSent ++ rest.take count }
          else none
      | _ => none
  | .parentWriteFails =>
      match s.parent with
      | .writing _ => some { s with parent := .reading }
      | _ => none
  | .parentSigpipe =>
      match s.parent with
      | .writing _ => some { s with parent := .brokenPipe }
      | _ => none
  | .parentSigterm inRead =>
      if s.parentPending = true ∧ s.parent ≠ .killed ∧ s.parent ≠ .brokenPipe then
        some (s.sigterm restarts inRead)
      else none
  | .parentTell =>
      if s.parent = .telling then
        some { s with parent := .returned, childPending := s.childPending || !s.sigcaught }
      else none

end Copying

def CopyStep (restarts ignoreeof : Bool) (s : Copying) (act : CopyAction) (s' : Copying) : Prop :=
  s.step restarts ignoreeof act = some s'

/-! ## Who is left behind -/

/-- The child copies nothing any more. -/
def ChildPc.done : ChildPc → Bool
  | .exiting | .exited | .killed | .undefined => true
  | .reading | .writing _ | .notify => false

/-- The child has called `kill`. -/
def ChildPc.told : ChildPc → Bool
  | .exiting | .exited | .killed => true
  | .reading | .writing _ | .notify | .undefined => false

/-- The parent is in its loop. -/
def ParentPc.copies : ParentPc → Bool
  | .reading | .writing _ => true
  | .installing | .telling | .returned | .killed | .brokenPipe => false

structure Ends (restarts ignoreeof : Bool) (s : Copying) : Prop where
  told : s.parentPending = true ∨ s.sigcaught = true ∨ s.parent = .killed →
    ignoreeof = false ∧ s.child.told = true
  asks : s.child = .notify → ignoreeof = false
  early : s.parent = .killed → s.installed = false
  notInstalled : s.installed = false → s.parent = .installing ∨ s.parent = .killed
  caught : s.sigcaught = true → s.installed = true
  ended : s.parent = .returned → s.child.done = true ∨ s.childPending = true
  sent : s.childPending = true ∨ s.child = .killed → s.parent = .returned
  stopped : restarts = true → s.parent = .telling ∨ s.parent = .returned → s.stopped = true

variable {restarts ignoreeof : Bool} {s s' : Copying} {act : CopyAction}

theorem done_of_told {pc : ChildPc} (told : pc.told = true) : pc.done = true := by
  cases pc <;> first | rfl | cases told

namespace Ends

theorem init : Ends restarts ignoreeof .init := by
  constructor <;> simp [Copying.init]

/-- The child goes on with its own copying. -/
theorem ofChild (ends : Ends restarts ignoreeof s) {pc : ChildPc} {got sent : Block}
    (told : s.child.told = true → pc.told = true) (done : s.child.done = true → pc.done = true)
    (alive : pc ≠ .killed) (asks : pc = .notify → ignoreeof = false) :
    Ends restarts ignoreeof { s with child := pc, childGot := got, childSent := sent } where
  told h := ⟨(ends.told h).1, told (ends.told h).2⟩
  asks := asks
  early := ends.early
  notInstalled := ends.notInstalled
  caught := ends.caught
  ended h := (ends.ended h).imp_left done
  sent h := ends.sent (h.imp_right fun killed => absurd killed alive)
  stopped := ends.stopped

/-- The parent goes on with its own copying. -/
theorem ofParent (ends : Ends restarts ignoreeof s) {pc : ParentPc} {got sent : Block}
    (before : s.parent.copies = true) (after : pc.copies = true) :
    Ends restarts ignoreeof { s with parent := pc, parentGot := got, parentSent := sent } := by
  have notOld {old : ParentPc} (out : old.copies = false) : s.parent ≠ old := by
    rintro rfl
    exact absurd (out.symm.trans before) nofun
  have notNew {new : ParentPc} (out : new.copies = false) : pc ≠ new := by
    rintro rfl
    exact absurd (out.symm.trans after) nofun
  constructor
  case told =>
    rintro (pending | caught | killed)
    · exact ends.told (.inl pending)
    · exact ends.told (.inr (.inl caught))
    · exact absurd killed (notNew rfl)
  case asks => exact ends.asks
  case early => exact fun killed => absurd killed (notNew rfl)
  case notInstalled =>
    intro off
    obtain installing | killed := ends.notInstalled off
    · exact absurd installing (notOld rfl)
    · exact absurd killed (notOld rfl)
  case caught => exact ends.caught
  case ended => exact fun returned => absurd returned (notNew rfl)
  case sent => exact fun h => absurd (ends.sent h) (notOld rfl)
  case stopped =>
    rintro - (telling | returned)
    · exact absurd telling (notNew rfl)
    · exact absurd returned (notNew rfl)

/-- A signal comes to a parent that has not ended. -/
theorem sigterm (ends : Ends restarts ignoreeof s) (inRead : Bool)
    (pending : s.parentPending = true) (live : s.parent ≠ .killed) :
    Ends restarts ignoreeof (s.sigterm restarts inRead) := by
  have told := ends.told (.inl pending)
  by_cases installed : s.installed = true
  · rw [Copying.sigterm, if_pos installed]
    -- where the parent goes on
    generalize goes : (if inRead && !restarts && s.parent = .reading then ParentPc.telling
      else s.parent) = pc
    have kept : pc = s.parent ∨ pc = .telling ∧ restarts = false ∧ s.parent = .reading := by
      rw [← goes]
      split
      · rename_i cut
        simp only [Bool.and_eq_true, Bool.not_eq_true', decide_eq_true_eq] at cut
        exact .inr ⟨rfl, cut.1.2, cut.2⟩
      · exact .inl rfl
    constructor
    case told => exact fun _ => told
    case asks => exact ends.asks
    case early =>
      intro (killed : pc = .killed)
      obtain same | ⟨telling, -⟩ := kept
      · exact absurd (same.symm.trans killed) live
      · exact absurd (telling.symm.trans killed) nofun
    case notInstalled => exact fun off => absurd (installed.symm.trans off) nofun
    case caught => exact fun _ => installed
    case ended => exact fun _ => .inl (done_of_told told.2)
    case sent =>
      intro h
      have returned := ends.sent h
      obtain same | ⟨-, -, reading⟩ := kept
      · exact same.trans returned
      · exact absurd (reading.symm.trans returned) nofun
    case stopped =>
      intro restart at_
      obtain same | ⟨-, noRestart, -⟩ := kept
      · exact ends.stopped restart (same ▸ at_)
      · exact absurd (restart.symm.trans noRestart) nofun
  · have off : s.installed = false := eq_false_of_ne_true installed
    rw [Copying.sigterm, if_neg installed]
    constructor
    case told => exact fun _ => told
    case asks => exact ends.asks
    case early => exact fun _ => off
    case notInstalled => exact fun _ => .inr rfl
    case caught => exact ends.caught
    case ended => exact nofun
    case sent =>
      intro h
      have returned := ends.sent h
      obtain installing | killed := ends.notInstalled off
      · exact absurd (installing.symm.trans returned) nofun
      · exact absurd killed live
    case stopped =>
      intro _ h
      obtain h | h := h <;> cases h

theorem step (ends : Ends restarts ignoreeof s) (h : CopyStep restarts ignoreeof s act s') :
    Ends restarts ignoreeof s' := by
  cases act with
  | childRead bytes =>
      obtain ⟨⟨at_, -⟩, h⟩ := Option.ite_none_right_eq_some.mp h
      cases h
      exact ends.ofChild (by rw [at_]; exact nofun) (by rw [at_]; exact nofun) nofun nofun
  | childEof =>
      obtain ⟨at_, h⟩ := Option.ite_none_right_eq_some.mp h
      cases h
      refine ends.ofChild (by rw [at_]; exact nofun) (by rw [at_]; exact nofun) ?_ ?_
      · split <;> exact nofun
      · cases ignoreeof <;> simp
  | childReadFails =>
      obtain ⟨at_, h⟩ := Option.ite_none_right_eq_some.mp h
      cases h
      exact ends.ofChild (by rw [at_]; exact nofun) (by rw [at_]; exact nofun) nofun nofun
  | childWrite count =>
      simp only [CopyStep, Copying.step] at h
      split at h
      · rename_i rest at_
        obtain ⟨-, h⟩ := Option.ite_none_right_eq_some.mp h
        cases h
        refine ends.ofChild (by rw [at_]; exact nofun) (by rw [at_]; exact nofun) ?_ ?_
        · rw [Copying.childNext]
          split <;> exact nofun
        · rw [Copying.childNext]
          split <;> exact nofun
      · cases h
  | childWriteFails =>
      simp only [CopyStep, Copying.step] at h
      split at h
      · rename_i rest at_
        cases h
        exact ends.ofChild (by rw [at_]; exact nofun) (by rw [at_]; exact nofun) nofun nofun
      · cases h
  | childNotify =>
      obtain ⟨at_, h⟩ := Option.ite_none_right_eq_some.mp h
      cases h
      constructor
      case told => exact fun _ => ⟨ends.asks at_, rfl⟩
      case asks => exact nofun
      case early => exact ends.early
      case notInstalled => exact ends.notInstalled
      case caught => exact ends.caught
      case ended => exact fun _ => .inl rfl
      case sent =>
        intro h
        exact ends.sent (h.imp_right nofun)
      case stopped => exact ends.stopped
  | childExit =>
      obtain ⟨at_, h⟩ := Option.ite_none_right_eq_some.mp h
      cases h
      exact ends.ofChild (fun _ => rfl) (fun _ => rfl) nofun nofun
  | childSigterm =>
      obtain ⟨⟨pending, live⟩, h⟩ := Option.ite_none_right_eq_some.mp h
      cases h
      constructor
      case told => exact fun h => ⟨(ends.told h).1, rfl⟩
      case asks => exact nofun
      case early => exact ends.early
      case notInstalled => exact ends.notInstalled
      case caught => exact ends.caught
      case ended => exact fun _ => .inl rfl
      case sent => exact fun _ => ends.sent (.inl pending)
      case stopped => exact ends.stopped
  | parentInstall =>
      obtain ⟨at_, h⟩ := Option.ite_none_right_eq_some.mp h
      cases h
      constructor
      case told =>
        rintro (pending | caught | killed)
        · exact ends.told (.inl pending)
        · exact ends.told (.inr (.inl caught))
        · cases killed
      case asks => exact ends.asks
      case early => exact nofun
      case notInstalled => exact nofun
      case caught => exact fun _ => rfl
      case ended => exact nofun
      case sent => exact fun h => absurd (at_.symm.trans (ends.sent h)) nofun
      case stopped =>
        intro _ h
        obtain h | h := h <;> cases h
  | parentRead bytes =>
      obtain ⟨⟨at_, -⟩, h⟩ := Option.ite_none_right_eq_some.mp h
      cases h
      exact ends.ofParent (by rw [at_]; rfl) rfl
  | parentStop =>
      obtain ⟨at_, h⟩ := Option.ite_none_right_eq_some.mp h
      cases h
      constructor
      case told =>
        rintro (pending | caught | killed)
        · exact ends.told (.inl pending)
        · exact ends.told (.inr (.inl caught))
        · cases killed
      case asks => exact ends.asks
      case early => exact nofun
      case notInstalled =>
        intro off
        obtain installing | killed := ends.notInstalled off
        · exact absurd (at_.symm.trans installing) nofun
        · exact absurd (at_.symm.trans killed) nofun
      case caught => exact ends.caught
      case ended => exact nofun
      case sent => exact fun h => absurd (at_.symm.trans (ends.sent h)) nofun
      case stopped => exact fun _ _ => rfl
  | parentWrite count =>
      simp only [CopyStep, Copying.step] at h
      split at h
      · rename_i rest at_
        obtain ⟨-, h⟩ := Option.ite_none_right_eq_some.mp h
        cases h
        refine ends.ofParent (by rw [at_]; rfl) ?_
        rw [Copying.parentNext]
        split <;> rfl
      · cases h
  | parentWriteFails =>
      simp only [CopyStep, Copying.step] at h
      split at h
      · rename_i rest at_
        cases h
        exact ends.ofParent (by rw [at_]; rfl) rfl
      · cases h
  | parentSigpipe =>
      simp only [CopyStep, Copying.step] at h
      split at h
      · rename_i rest at_
        cases h
        constructor
        case told =>
          rintro (pending | caught | killed)
          · exact ends.told (.inl pending)
          · exact ends.told (.inr (.inl caught))
          · cases killed
        case asks => exact ends.asks
        case early => exact nofun
        case notInstalled =>
          intro off
          obtain installing | killed := ends.notInstalled off
          · exact absurd (at_.symm.trans installing) nofun
          · exact absurd (at_.symm.trans killed) nofun
        case caught => exact ends.caught
        case ended => exact nofun
        case sent => exact fun h => absurd (at_.symm.trans (ends.sent h)) nofun
        case stopped =>
          intro _ h
          obtain h | h := h <;> cases h
      · cases h
  | parentSigterm inRead =>
      obtain ⟨⟨pending, live, -⟩, h⟩ := Option.ite_none_right_eq_some.mp h
      cases h
      exact ends.sigterm inRead pending live
  | parentTell =>
      obtain ⟨at_, h⟩ := Option.ite_none_right_eq_some.mp h
      cases h
      constructor
      case told =>
        rintro (pending | caught | killed)
        · exact ends.told (.inl pending)
        · exact ends.told (.inr (.inl caught))
        · cases killed
      case asks => exact ends.asks
      case early => exact nofun
      case notInstalled =>
        intro off
        obtain installing | killed := ends.notInstalled off
        · exact absurd (at_.symm.trans installing) nofun
        · exact absurd (at_.symm.trans killed) nofun
      case caught => exact ends.caught
      case ended =>
        intro _
        cases caught : s.sigcaught with
        | true => exact .inl (done_of_told (ends.told (.inr (.inl caught))).2)
        | false =>
            right
            simp
      case sent => exact fun _ => rfl
      case stopped => exact fun restart _ => ends.stopped restart (.inl at_)

end Ends

/-- When the parent has returned or has been killed by the child, the child copies nothing any more
or a `SIGTERM` is on its way to it, and it is not killed before. The `SIGTERM` of the child kills a
parent that has not installed its handler yet. Where `read` goes on behind a handler, the parent
returns only when the terminal has ended, whatever the child tells it. A parent that `SIGPIPE` has
ended tells the child nothing. -/
theorem none_left_behind (h : Reachable (CopyStep restarts ignoreeof) .init s) :
    (s.parent = .returned ∨ s.parent = .killed → s.child.done = true ∨ s.childPending = true) ∧
    (s.child = .killed → s.parent = .returned) ∧
    (s.parent = .killed → ignoreeof = false ∧ s.installed = false ∧ s.child.told = true) ∧
    (restarts = true → s.parent = .returned → s.stopped = true) ∧
    (s.parent = .brokenPipe → s.child ≠ .killed ∧ s.childPending = false) := by
  have ends : Ends restarts ignoreeof s := h.invariant .init fun _ _ _ ends hstep => ends.step hstep
  refine ⟨?_, fun killed => ends.sent (.inr killed), fun killed => ?_, fun restart returned =>
    ends.stopped restart (.inr returned), fun gone => ⟨fun killed => ?_, ?_⟩⟩
  · rintro (returned | killed)
    · exact ends.ended returned
    · exact .inl (done_of_told (ends.told (.inr (.inr killed))).2)
  · obtain ⟨asked, told⟩ := ends.told (.inr (.inr killed))
    exact ⟨asked, ends.early killed, told⟩
  · exact absurd (gone.symm.trans (ends.sent (.inr killed))) nofun
  · by_contra pending
    exact absurd (gone.symm.trans (ends.sent (.inl (eq_true_of_ne_false pending)))) nofun

/-- Standard input ends at once, and the child is faster than the parent. Or the reader of standard
output has gone, and the child goes on. -/
theorem none_left_behind_early :
    (∃ s, Reachable (CopyStep true false) .init s ∧ s.parent = .killed ∧ s.installed = false) ∧
    ∃ s, Reachable (CopyStep true false) .init s ∧ s.parent = .brokenPipe ∧ s.child = .reading ∧
      s.childPending = false := by
  constructor
  · have run : ∃ s, Steps (CopyStep true false) .init
        [.childEof, .childNotify, .parentSigterm false] s ∧ s.parent = .killed :=
      ⟨_, Steps.of_foldlM_option rfl, rfl⟩
    obtain ⟨s, steps, killed⟩ := run
    exact ⟨s, ⟨_, steps⟩, killed, ((none_left_behind ⟨_, steps⟩).2.2.1 killed).2.1⟩
  · have run : ∃ s, Steps (CopyStep true false) .init
        [.parentInstall, .parentRead [104], .parentSigpipe] s ∧ s.parent = .brokenPipe ∧
        s.child = .reading :=
      ⟨_, Steps.of_foldlM_option rfl, rfl, rfl⟩
    obtain ⟨s, steps, gone, reading⟩ := run
    exact ⟨s, ⟨_, steps⟩, gone, reading, ((none_left_behind ⟨_, steps⟩).2.2.2.2 gone).2⟩

/-! ## What is copied -/

/-- What has been read and not yet written. -/
def ChildPc.rest : ChildPc → Block
  | .writing rest => rest
  | .reading | .notify | .exiting | .exited | .killed | .undefined => []

def ParentPc.rest : ParentPc → Block
  | .writing rest => rest
  | .installing | .reading | .telling | .returned | .killed | .brokenPipe => []

/-- No `writen` fails. -/
def NoFailure (_ : Copying) : CopyAction → Prop
  | .childWriteFails | .parentWriteFails | .parentSigpipe => False
  | _ => True

instance : ∀ s act, Decidable (NoFailure s act)
  | _, .childWriteFails | _, .parentWriteFails | _, .parentSigpipe =>
      inferInstanceAs (Decidable False)
  | _, .childRead _ | _, .childEof | _, .childReadFails | _, .childWrite _ | _, .childNotify
  | _, .childExit | _, .childSigterm | _, .parentInstall | _, .parentRead _ | _, .parentStop
  | _, .parentWrite _ | _, .parentSigterm _ | _, .parentTell =>
      inferInstanceAs (Decidable True)

/-- Each process has written what it has read, in order, but for what it is writing. -/
structure Copies (s : Copying) : Prop where
  child : s.child ≠ .killed → s.childGot = s.childSent ++ s.child.rest
  part : s.childSent <+: s.childGot
  parent : s.parentGot = s.parentSent ++ s.parent.rest

theorem rest_childNext (rest : Block) : (Copying.childNext rest).rest = rest := by
  rw [Copying.childNext]
  split
  · rename_i empty
    exact empty.symm
  · rfl

theorem rest_parentNext (rest : Block) : (Copying.parentNext rest).rest = rest := by
  rw [Copying.parentNext]
  split
  · rename_i empty
    exact empty.symm
  · rfl

namespace Copies

theorem init : Copies .init := ⟨fun _ => rfl, List.prefix_rfl, rfl⟩

/-- A child that is alive has written a part of what it has read. -/
theorem ofChild {t : Copying} (copies : Copies s) (child : t.childGot = t.childSent ++ t.child.rest)
    (got : t.parentGot = s.parentGot) (sent : t.parentSent = s.parentSent)
    (parent : t.parent.rest = s.parent.rest) : Copies t :=
  ⟨fun _ => child, ⟨_, child.symm⟩, by rw [got, sent, parent, copies.parent]⟩

theorem ofParent {t : Copying} (copies : Copies s)
    (parent : t.parentGot = t.parentSent ++ t.parent.rest) (got : t.childGot = s.childGot)
    (sent : t.childSent = s.childSent) (child : t.child = s.child) : Copies t := by
  refine ⟨?_, ?_, parent⟩
  · rw [got, sent, child]
    exact copies.child
  · rw [got, sent]
    exact copies.part

/-- The handler does not come between a `read` and its `writen`. -/
theorem rest_sigterm (ends : Ends restarts ignoreeof s) (inRead : Bool) :
    (s.sigterm restarts inRead).parent.rest = s.parent.rest := by
  by_cases installed : s.installed = true
  · rw [Copying.sigterm, if_pos installed]
    show (if _ then _ else _ : ParentPc).rest = _
    split
    · rename_i cut
      simp only [Bool.and_eq_true, decide_eq_true_eq] at cut
      rw [cut.2]
      rfl
    · rfl
  · rw [Copying.sigterm, if_neg installed]
    obtain at_ | at_ := ends.notInstalled (eq_false_of_ne_true installed)
    · rw [at_]
      rfl
    · rw [at_]

theorem sigterm_fixed (s : Copying) (inRead : Bool) :
    (s.sigterm restarts inRead).parentGot = s.parentGot ∧
      (s.sigterm restarts inRead).parentSent = s.parentSent ∧
      (s.sigterm restarts inRead).child = s.child ∧
      (s.sigterm restarts inRead).childGot = s.childGot ∧
      (s.sigterm restarts inRead).childSent = s.childSent := by
  rw [Copying.sigterm]
  split <;> exact ⟨rfl, rfl, rfl, rfl, rfl⟩

theorem step (copies : Copies s) (ends : Ends restarts ignoreeof s) (allowed : NoFailure s act)
    (h : CopyStep restarts ignoreeof s act s') : Copies s' := by
  cases act with
  | childRead bytes =>
      obtain ⟨⟨at_, -⟩, h⟩ := Option.ite_none_right_eq_some.mp h
      cases h
      have own := copies.child (by rw [at_]; exact nofun)
      refine copies.ofChild ?_ rfl rfl rfl
      simp [own, at_, ChildPc.rest]
  | childEof =>
      obtain ⟨at_, h⟩ := Option.ite_none_right_eq_some.mp h
      cases h
      have own := copies.child (by rw [at_]; exact nofun)
      refine copies.ofChild ?_ rfl rfl rfl
      rw [own, at_]
      cases ignoreeof <;> rfl
  | childReadFails =>
      obtain ⟨at_, h⟩ := Option.ite_none_right_eq_some.mp h
      cases h
      have own := copies.child (by rw [at_]; exact nofun)
      refine copies.ofChild ?_ rfl rfl rfl
      rw [own, at_]
      rfl
  | childWrite count =>
      simp only [CopyStep, Copying.step] at h
      split at h
      · rename_i rest at_
        obtain ⟨-, h⟩ := Option.ite_none_right_eq_some.mp h
        cases h
        have own := copies.child (by rw [at_]; exact nofun)
        refine copies.ofChild ?_ rfl rfl rfl
        rw [at_, ChildPc.rest] at own
        rw [rest_childNext, List.append_assoc, List.take_append_drop, own]
      · cases h
  | childWriteFails => exact allowed.elim
  | childNotify =>
      obtain ⟨at_, h⟩ := Option.ite_none_right_eq_some.mp h
      cases h
      have own := copies.child (by rw [at_]; exact nofun)
      refine copies.ofChild ?_ rfl rfl rfl
      rw [own, at_]
      rfl
  | childExit =>
      obtain ⟨at_, h⟩ := Option.ite_none_right_eq_some.mp h
      cases h
      have own := copies.child (by rw [at_]; exact nofun)
      refine copies.ofChild ?_ rfl rfl rfl
      rw [own, at_]
      rfl
  | childSigterm =>
      obtain ⟨-, h⟩ := Option.ite_none_right_eq_some.mp h
      cases h
      exact ⟨fun alive => absurd rfl alive, copies.part, copies.parent⟩
  | parentInstall =>
      obtain ⟨at_, h⟩ := Option.ite_none_right_eq_some.mp h
      cases h
      have own := copies.parent
      refine copies.ofParent ?_ rfl rfl rfl
      rw [own, at_]
      rfl
  | parentRead bytes =>
      obtain ⟨⟨at_, -⟩, h⟩ := Option.ite_none_right_eq_some.mp h
      cases h
      have own := copies.parent
      refine copies.ofParent ?_ rfl rfl rfl
      simp [own, at_, ParentPc.rest]
  | parentStop =>
      obtain ⟨at_, h⟩ := Option.ite_none_right_eq_some.mp h
      cases h
      have own := copies.parent
      refine copies.ofParent ?_ rfl rfl rfl
      rw [own, at_]
      rfl
  | parentWrite count =>
      simp only [CopyStep, Copying.step] at h
      split at h
      · rename_i rest at_
        obtain ⟨-, h⟩ := Option.ite_none_right_eq_some.mp h
        cases h
        have own := copies.parent
        refine copies.ofParent ?_ rfl rfl rfl
        rw [at_, ParentPc.rest] at own
        rw [rest_parentNext, List.append_assoc, List.take_append_drop, own]
      · cases h
  | parentWriteFails => exact allowed.elim
  | parentSigpipe => exact allowed.elim
  | parentSigterm inRead =>
      obtain ⟨-, h⟩ := Option.ite_none_right_eq_some.mp h
      cases h
      obtain ⟨got, sent, child, childGot, childSent⟩ := @sigterm_fixed restarts s inRead
      refine copies.ofParent ?_ childGot childSent child
      rw [got, sent, rest_sigterm ends, copies.parent]
  | parentTell =>
      obtain ⟨at_, h⟩ := Option.ite_none_right_eq_some.mp h
      cases h
      have own := copies.parent
      refine copies.ofParent ?_ rfl rfl rfl
      rw [own, at_]
      rfl

end Copies

/-- In every run in which no `writen` fails, each direction passes on what has been read, in
order, but for what is being written. Only a child that is killed may leave something out. The
parent returns behind its last `writen`. -/
theorem copied (h : Reachable (Guarded NoFailure (CopyStep restarts ignoreeof)) .init s) :
    s.childSent <+: s.childGot ∧
    (s.child ≠ .killed → s.childGot = s.childSent ++ s.child.rest) ∧
    s.parentGot = s.parentSent ++ s.parent.rest ∧
    (s.parent = .returned → s.parentSent = s.parentGot) := by
  have inv := h.invariant (I := fun s => Ends restarts ignoreeof s ∧ Copies s) ⟨.init, .init⟩
    fun _ _ _ inv hstep => ⟨inv.1.step hstep.2, inv.2.step inv.1 hstep.1 hstep.2⟩
  have copies := inv.2
  refine ⟨copies.part, copies.child, copies.parent, fun returned => ?_⟩
  have all := copies.parent
  rw [returned, ParentPc.rest, List.append_nil] at all
  exact all.symm

/-- Where `read` does not go on behind a handler, the parent leaves in front of what the program
still had to say. -/
theorem copied_interrupted :
    ∃ s, Reachable (Guarded NoFailure (CopyStep false false)) .init s ∧ s.parent = .returned ∧
      s.stopped = false ∧ s.childSent = [104, 105] ∧ s.parentSent = s.parentGot := by
  have run : ∃ s, Steps (Guarded NoFailure (CopyStep false false)) .init
      [.parentInstall, .childRead [104, 105], .childWrite 1, .childWrite 1, .parentRead [104],
        .childEof, .parentWrite 1, .childNotify, .parentSigterm true, .parentTell] s ∧
      s.parent = .returned ∧ s.stopped = false ∧ s.childSent = [104, 105] :=
    ⟨_, Steps.of_foldlM_guarded rfl, rfl, rfl, rfl⟩
  obtain ⟨s, steps, returned, running, sent⟩ := run
  exact ⟨s, ⟨_, steps⟩, returned, running, sent, (copied ⟨_, steps⟩).2.2.2 returned⟩

end UnixProgramming.Pty
