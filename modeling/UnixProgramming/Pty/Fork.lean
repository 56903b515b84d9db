import Mathlib.Data.List.TakeDrop
import UnixProgramming.Library.CString
import UnixProgramming.Library.DescriptorTable
import UnixProgramming.Library.Fallible

/-!
# `pty_fork` of `term_io.c`

The child opens the slave of a new pseudo terminal and makes it its standard descriptors. But
`ptys_open` returns 0 and not the descriptor that it has opened, so the child goes on with what
the caller had there. `err_sys` prints its text and does not end the process: behind a call that
fails, both processes go on with what they have.
-/

namespace UnixProgramming.Pty

open CMemory Fallible DescriptorTable

variable {ρ : Type}

/-- What the descriptors of the two processes refer to: what the caller had, the two sides of the
new terminal, or another file that `open` has found. -/
inductive End (ρ : Type)
  | earlier (r : ρ)
  | master
  | slave
  | other

/-- What the calls give back. -/
structure PtyCalls where
  posixOpenpt : Option Int
  grantpt : Bool
  unlockpt : Bool
  ptsname : Option Block
  fork : Option Int
  setsid : Bool
  openSlave : Option Int
  tiocsctty : Bool
  tcsetattr : Bool
  tiocswinsz : Bool
  dup2 : Int → Bool

/-- `err_sys`, if the call has failed. -/
def errSys (failed : Bool) (text : String) : List String := if failed then [text] else []

/-- A call on a descriptor that is not open fails. -/
def failing (t : Table Int (End ρ)) (fd : Int) (succeeds : Bool) : Bool :=
  !((t fd).isSome && succeeds)

/-- The value, the descriptors and `pts_name`. -/
def ptymOpen (t : Table Int (End ρ)) (ptsName : Block) (ptsNamesz : Nat) (o : PtyCalls) :
    Except Fault (Int × Table Int (End ρ) × Block) := do
  match o.posixOpenpt with
  | none => return (-1, t, ptsName)
  | some fdm =>
      let t := t.opened fdm .master
      if o.grantpt && o.unlockpt then
        match o.ptsname with
        | none => return (-1, t.close fdm, ptsName)
        | some ptr =>
            let ptsName ← strncpy ptsName 0 (cString ptr) ptsNamesz
            let ptsName ← store ptsName (ptsNamesz - 1) 0
            return (fdm, t, ptsName)
      else return (-1, t.close fdm, ptsName)

/-- The name of the slave opens the slave. -/
def ptysOpen (t : Table Int (End ρ)) (ptsName : Block) (o : PtyCalls) :
    Int × Table Int (End ρ) :=
  match o.openSlave with
  | none => (-1, t)
  | some fds =>
      -- not `return (fds)`
      (0, t.opened fds (if o.ptsname.map cString = some (cString ptsName) then .slave else .other))

/-- The flags say whether the pointers are not NULL, and whether the build is for BSD. -/
structure PtyOptions where
  slaveTermios : Bool
  slaveWinsize : Bool
  bsd : Bool

/-- The calls for the terminal of the child, and what is printed for those that fail. -/
def setUpSlave (t : Table Int (End ρ)) (fds : Int) (opts : PtyOptions) (o : PtyCalls) :
    List String :=
  errSys (opts.bsd && failing t fds o.tiocsctty) "TIOCSCTTY error" ++
    errSys (opts.slaveTermios && failing t fds o.tcsetattr) "tcssetattr error on slave pty" ++
    errSys (opts.slaveWinsize && failing t fds o.tiocswinsz) "TIOCSWINSZ error on slave pty"

/-- `dup2(fds, std)`. If it fails, `std` stays what it was. -/
def moveTo (t : Table Int (End ρ)) (fds std : Int) (o : PtyCalls) : Table Int (End ρ) :=
  match t.dup2 fds std with
  | some t' => if o.dup2 std then t' else t
  | none => t

/-- All three texts name the standard input. -/
def moveError (t : Table Int (End ρ)) (fds std : Int) (o : PtyCalls) : List String :=
  errSys (failing t fds (o.dup2 std)) "dup2 error to stdin"

/-- What the child returns, its descriptors, and the lines of `err_sys`. -/
structure Child (ρ : Type) where
  value : Int
  table : Table Int (End ρ)
  errors : List String

/-- The child of `pty_fork`. -/
def childBranch (t : Table Int (End ρ)) (fdm : Int) (ptsName : Block) (opts : PtyOptions)
    (o : PtyCalls) : Child ρ :=
  let (fds, t) := ptysOpen t ptsName o
  let t := t.close fdm
  let t₀ := moveTo t fds 0 o
  let t₁ := moveTo t₀ fds 1 o
  let t₂ := moveTo t₁ fds 2 o
  { value := 0
    table := if fds ≠ 0 ∧ fds ≠ 1 ∧ fds ≠ 2 then t₂.close fds else t₂
    errors := errSys (!o.setsid) "setsid error" ++ errSys (fds < 0) "can't open slave" ++
      setUpSlave t fds opts o ++ moveError t fds 0 o ++ moveError t₀ fds 1 o ++
      moveError t₁ fds 2 o }

/-- `slave_name` and `slave_namesz`. -/
structure NameBuffer where
  bytes : Block
  size : Nat
  positive : 0 < size
  inside : size ≤ bytes.length

def copyName (ptsName : Block) : Option NameBuffer → Except Fault (Option Block)
  | none => return none
  | some slaveName => do
      let bytes ← strncpy slaveName.bytes 0 (cString ptsName) slaveName.size
      let bytes ← store bytes (slaveName.size - 1) 0
      return some bytes

/-- What `pty_fork` comes to in both processes. -/
inductive Forked (ρ : Type)
  | failed (t : Table Int (End ρ))
  | both (pid ptrfdm : Int) (parent : Table Int (End ρ)) (slaveName : Option Block)
      (child : Child ρ)

/-- The descriptors in front of the call. -/
def callerTable (t : Table Int ρ) : Table Int (End ρ) := fun d => (t d).map .earlier

/-- The text for a failing `ptym_open` has `pts_name` in it, whatever that holds. -/
def openError (fdm : Int) (ptsName : Block) : Except Fault Unit :=
  if fdm < 0 then (readString ptsName).map fun _ => () else return

/-- `pts_name` is not initialised. -/
def ptyFork (t : Table Int ρ) (ptsName : Vector UInt8 20) (slaveName : Option NameBuffer)
    (opts : PtyOptions) (o : PtyCalls) : Except Fault (Forked ρ) := do
  let (fdm, t, ptsName) ← ptymOpen (callerTable t) ptsName.toList 20 o
  openError fdm ptsName
  let slaveName ← copyName ptsName slaveName
  match o.fork with
  | none => return .failed t
  | some pid => return .both pid fdm t slaveName (childBranch t fdm ptsName opts o)

/-- The numbers of the two new descriptors. -/
structure Numbering (t : Table Int ρ) where
  fdm : Int
  fds : Int
  nonneg : 0 ≤ fdm
  nonnegSlave : 0 ≤ fds
  free : t fdm = none
  freeSlave : t fds = none
  distinct : fds ≠ fdm

/-- The kernel takes the lowest number that is free. The slave is opened while the master is. -/
structure Numbering.Lowest {t : Table Int ρ} (n : Numbering t) : Prop where
  master : ∀ d, 0 ≤ d → d < n.fdm → t d ≠ none
  slave : ∀ d, 0 ≤ d → d < n.fds → d = n.fdm ∨ t d ≠ none

/-- All calls succeed. -/
def succeeding {t : Table Int ρ} (n : Numbering t) (name : Block) (pid : Int) : PtyCalls where
  posixOpenpt := some n.fdm
  grantpt := true
  unlockpt := true
  ptsname := some name
  fork := some pid
  setsid := true
  openSlave := some n.fds
  tiocsctty := true
  tcsetattr := true
  tiocswinsz := true
  dup2 _ := true

def IsStandard (d : Int) : Prop := d = 0 ∨ d = 1 ∨ d = 2

instance : DecidablePred IsStandard := fun d =>
  inferInstanceAs (Decidable (d = 0 ∨ d = 1 ∨ d = 2))

/-- The standard descriptors of the child are the slave, and no other one is the slave or the
master. The caller's other descriptors are as they were. -/
structure Wired (t : Table Int ρ) (child : Table Int (End ρ)) : Prop where
  standard : ∀ d, IsStandard d → child d = some .slave
  only : ∀ d, ¬ IsStandard d → child d ≠ some .slave ∧ child d ≠ some .master
  others : ∀ d r, ¬ IsStandard d → t d = some r → child d = some (.earlier r)

/-- The child returns 0 with the slave, and the parent has the master. -/
def PtyRight (t : Table Int ρ) (result : Except Fault (Forked ρ)) : Prop :=
  ∃ pid ptrfdm parent slaveName child,
    result = .ok (.both pid ptrfdm parent slaveName child) ∧ child.value = 0 ∧
      parent ptrfdm = some .master ∧ Wired t child.table

/-- A copy with its last byte set to NUL is the text up to that byte. -/
theorem copy_eq {b text : Block} (plain : 0 ∉ text) {n : Nat} (positive : 0 < n)
    (inside : n ≤ b.length) :
    ∃ copied stored, strncpy b 0 text n = .ok copied ∧ store copied (n - 1) 0 = .ok stored ∧
      cString stored = text.take (n - 1) := by
  have length : (padded text n ++ b.drop n).length = b.length := by
    rw [List.length_append, length_padded, List.length_drop]
    omega
  have here : n - 1 < (padded text n ++ b.drop n).length := by omega
  refine ⟨_, _, strncpy_zero inside, if_pos here, ?_⟩
  rw [List.set_eq_take_append_cons_drop, if_pos here, cString_append_nul,
    List.take_append_of_le_length (by rw [length_padded]; omega), take_padded text (by omega),
    cString_padded plain]

section Child

variable {t : Table Int (End ρ)} {o : PtyCalls}

theorem moveTo_eq {fds : Int} {x : End ρ} (isOpen : t fds = some x) (std : Int)
    (succeeds : o.dup2 std = true) : moveTo t fds std o = t.opened std x := by
  rw [moveTo, Table.dup2_eq isOpen]
  exact if_pos succeeds

theorem moveTo_closed {fds : Int} (closed : t fds = none) (std : Int) :
    moveTo t fds std o = t := by
  rw [moveTo, Table.dup2_eq_none closed]

end Child

section Wiring

variable {t : Table Int ρ} (n : Numbering t) (name : Block) (pid : Int)

/-- What the slave's name has opened. -/
def opensTo (name : Block) : End ρ := if strlen name < 20 then .slave else .other

/-- The child's descriptors in front of the first `dup2`. -/
def childTable (n : Numbering t) (name : Block) : Table Int (End ρ) :=
  (((callerTable t).opened n.fdm .master).opened n.fds
    (opensTo name)).close n.fdm

theorem childTable_apply (d : Int) :
    childTable n name d =
      if d = n.fds then some (opensTo name) else (t d).map .earlier := by
  rw [childTable, Table.close_apply, Table.opened_apply, Table.opened_apply, callerTable]
  by_cases isMaster : d = n.fdm
  · subst isMaster
    simp [n.distinct.symm, n.free]
  · simp [isMaster]

theorem ptysOpen_eq {ptsName : Block} (copied : cString ptsName = (cString name).take 19)
    (t : Table Int (End ρ)) :
    ptysOpen t ptsName (succeeding n name pid) = (0, t.opened n.fds (opensTo name)) := by
  have whole : cString name = (cString name).take 19 ↔ strlen name < 20 := by
    rw [eq_comm, List.take_eq_self_iff, strlen]
    omega
  simp only [ptysOpen, succeeding, Option.map_some, Option.some_inj, copied, whole, opensTo]

variable {ptsName : Block} (opts : PtyOptions)

/-- The child goes on with descriptor 0, and it does not close it in the end. -/
theorem childBranch_table (copied : cString ptsName = (cString name).take 19) :
    (childBranch ((callerTable t).opened n.fdm .master) n.fdm ptsName opts
        (succeeding n name pid)).table =
      moveTo (moveTo (moveTo (childTable n name) 0 0 (succeeding n name pid)) 0 1
        (succeeding n name pid)) 0 2 (succeeding n name pid) := by
  have kept : ¬ ((0 : Int) ≠ 0 ∧ (0 : Int) ≠ 1 ∧ (0 : Int) ≠ 2) := by decide
  rw [childBranch, ptysOpen_eq n name pid copied]
  dsimp only
  rw [if_neg kept]
  rfl

/-- The child duplicates what it has as descriptor 0. -/
theorem childBranch_open (copied : cString ptsName = (cString name).take 19) {x : End ρ}
    (isOpen : childTable n name 0 = some x) :
    (childBranch ((callerTable t).opened n.fdm .master) n.fdm ptsName opts
        (succeeding n name pid)).table =
      (((childTable n name).opened 0 x).opened 1 x).opened 2 x := by
  have first := moveTo_eq (o := succeeding n name pid) isOpen 0 rfl
  have again : (childTable n name).opened 0 x 0 = some x := Table.opened_self _ _ _
  have second := moveTo_eq (o := succeeding n name pid) again 1 rfl
  have still : ((childTable n name).opened 0 x).opened 1 x 0 = some x := by
    rw [Table.opened_of_ne _ _ (by decide), again]
  have third := moveTo_eq (o := succeeding n name pid) still 2 rfl
  rw [childBranch_table n name pid opts copied, first, second, third]

/-- With 0 not open, no `dup2` succeeds, and the child returns all the same. -/
theorem childBranch_closed (copied : cString ptsName = (cString name).take 19)
    (closed : childTable n name 0 = none) :
    (childBranch ((callerTable t).opened n.fdm .master) n.fdm ptsName opts
      (succeeding n name pid)).table = childTable n name := by
  rw [childBranch_table n name pid opts copied, moveTo_closed closed, moveTo_closed closed,
    moveTo_closed closed]

theorem copyName_eq (ptsName : Block) (slaveName : Option NameBuffer) :
    ∃ copied, copyName ptsName slaveName = .ok copied := by
  cases slaveName with
  | none => exact ⟨none, rfl⟩
  | some slaveName =>
      have plain : 0 ∉ cString ptsName := take_strlen ptsName ▸ notMem_take_of_le_strlen le_rfl
      obtain ⟨copied, stored, copy, ending, -⟩ := copy_eq plain slaveName.positive slaveName.inside
      refine ⟨some stored, ?_⟩
      rw [copyName, copy, ok_bind, ending, ok_bind]
      rfl

/-- Both processes behind `fork`. -/
theorem ptyFork_eq (buffer : Vector UInt8 20) (slaveName : Option NameBuffer) :
    ∃ ptsName copied, cString ptsName = (cString name).take 19 ∧
      ptyFork t buffer slaveName opts (succeeding n name pid) =
        .ok (.both pid n.fdm ((callerTable t).opened n.fdm .master) copied
          (childBranch ((callerTable t).opened n.fdm .master) n.fdm ptsName opts
            (succeeding n name pid))) := by
  have plain : 0 ∉ cString name := take_strlen name ▸ notMem_take_of_le_strlen le_rfl
  have inside : 20 ≤ buffer.toList.length := Vector.length_toList.ge
  obtain ⟨copied, ptsName, copy, ending, text⟩ := copy_eq plain (by decide : 0 < 20) inside
  obtain ⟨slaveName', toCaller⟩ := copyName_eq ptsName slaveName
  have master : ptymOpen (callerTable t) buffer.toList 20 (succeeding n name pid) =
      .ok (n.fdm, (callerTable t).opened n.fdm .master, ptsName) := by
    simp only [ptymOpen, succeeding, Bool.and_self, if_true]
    rw [copy, ok_bind, ending, ok_bind]
    rfl
  refine ⟨ptsName, slaveName', text, ?_⟩
  have nonneg : ¬ n.fdm < 0 := Int.not_lt.mpr n.nonneg
  have silent : openError n.fdm ptsName = .ok () := if_neg nonneg
  rw [ptyFork, master, ok_bind]
  dsimp only
  rw [silent, ok_bind, toCaller]
  rfl

end Wiring

section Right

variable {t : Table Int ρ} {n : Numbering t} {name : Block}

theorem standard_apply {child : Table Int (End ρ)} {x : End ρ} {d : Int} :
    (((child.opened 0 x).opened 1 x).opened 2 x) d =
      if IsStandard d then some x else child d := by
  simp only [Table.opened_apply, IsStandard]
  split_ifs <;> simp_all

/-- The child has the slave if that is what its descriptor 0 has become. -/
theorem wired_of_slave (name : Block) (number : n.fds = 0) :
    Wired t ((((childTable n name).opened 0 .slave).opened 1 .slave).opened 2 .slave) := by
  have rest {d : Int} (other : ¬ IsStandard d) :
      ((((childTable n name).opened 0 .slave).opened 1 .slave).opened 2 .slave) d =
        (t d).map .earlier := by
    have nonzero : d ≠ 0 := fun zero => other (.inl zero)
    rw [standard_apply, if_neg other, childTable_apply, number, if_neg nonzero]
  refine ⟨fun d std => ?_, fun d other => ?_, fun d r other isOpen => ?_⟩
  · rw [standard_apply]
    exact if_pos std
  · rw [rest other]
    cases t d with
    | none => exact ⟨Option.some_ne_none _ ∘ Eq.symm, Option.some_ne_none _ ∘ Eq.symm⟩
    | some r => simp
  · rw [rest other, isOpen]
    rfl

theorem ptyRight_iff (pid : Int) (ptsName : Vector UInt8 20) (slaveName : Option NameBuffer)
    (opts : PtyOptions) :
    PtyRight t (ptyFork t ptsName slaveName opts (succeeding n name pid)) ↔
      n.fds = 0 ∧ strlen name < 20 := by
  obtain ⟨stored, copied, text, run⟩ := ptyFork_eq n name pid opts ptsName slaveName
  rw [run]
  constructor
  · rintro ⟨_, _, _, _, child, same, -, -, wired⟩
    obtain ⟨-, -, -, -, rfl⟩ := Forked.both.inj (Except.ok.inj same)
    have slave := wired.standard 0 (.inl rfl)
    cases atZero : childTable n name 0 with
    | none =>
        rw [childBranch_closed n name pid opts text atZero, atZero] at slave
        cases slave
    | some x =>
        rw [childBranch_open n name pid opts text atZero, standard_apply,
          if_pos (.inl rfl)] at slave
        cases slave
        rw [childTable_apply] at atZero
        split at atZero
        case isTrue number =>
          refine ⟨number.symm, ?_⟩
          by_contra long
          rw [opensTo, if_neg long] at atZero
          cases atZero
        case isFalse =>
          cases before : t 0 <;> simp [before] at atZero
  · rintro ⟨number, short⟩
    have atZero : childTable n name 0 = some .slave := by
      rw [childTable_apply, if_pos number.symm, opensTo, if_pos short]
    refine ⟨pid, n.fdm, (callerTable t).opened n.fdm .master, copied, _, rfl, rfl,
      Table.opened_self _ _ _, ?_⟩
    rw [childBranch_open n name pid opts text atZero]
    exact wired_of_slave name number

/-- The number 0 is taken by the master, if it was free. -/
theorem Numbering.Lowest.fds_ne_zero (lowest : n.Lowest) : n.fds ≠ 0 := by
  intro zero
  have taken : 0 < n.fdm := by
    have nonneg := n.nonneg
    have distinct := n.distinct
    omega
  exact lowest.master 0 (Int.le_refl 0) taken (zero ▸ n.freeSlave)

end Right

/-- With all calls succeeding, both processes have what they need exactly where the slave gets the
number 0 and its name fits in `pts_name`. The lowest free number is never 0, because the master
is opened first. -/
theorem ptyFork_right_iff (t : Table Int ρ) (n : Numbering t) (name : Block) (pid : Int)
    (ptsName : Vector UInt8 20) (slaveName : Option NameBuffer) (opts : PtyOptions) :
    (PtyRight t (ptyFork t ptsName slaveName opts (succeeding n name pid)) ↔
        n.fds = 0 ∧ strlen name < 20) ∧
      (n.Lowest → ¬ PtyRight t (ptyFork t ptsName slaveName opts (succeeding n name pid))) := by
  have exact_ := @ptyRight_iff ρ t n name pid ptsName slaveName opts
  exact ⟨exact_, fun lowest right => lowest.fds_ne_zero (exact_.mp right).1⟩

/-- A caller that has its standard descriptors only. -/
def shellTable : Table Int Nat := fun d => if IsStandard d then some 7 else none

def shellNumbering : Numbering shellTable where
  fdm := 3
  fds := 4
  nonneg := by decide
  nonnegSlave := by decide
  free := by decide
  freeSlave := by decide
  distinct := by decide

/-- The child keeps the caller's standard input, and the slave stays open as 4. -/
theorem ptyFork_keeps_stdin :
    shellNumbering.Lowest ∧
      (∃ pid ptrfdm parent slaveName child,
        ptyFork shellTable (.replicate 20 0) none ⟨false, false, false⟩
            (succeeding shellNumbering (ascii "/dev/pts/0") 77) =
          .ok (.both pid ptrfdm parent slaveName child) ∧
        child.table 0 = some (.earlier 7) ∧ child.table 4 = some .slave) ∧
      ¬ PtyRight shellTable (ptyFork shellTable (.replicate 20 0) none ⟨false, false, false⟩
        (succeeding shellNumbering (ascii "/dev/pts/0") 77)) := by
  refine ⟨⟨fun d nonneg less => ?_, fun d nonneg less => ?_⟩, ⟨_, _, _, _, _, rfl, rfl, rfl⟩, ?_⟩
  · have std : IsStandard d := by
      simp only [shellNumbering] at less
      rw [IsStandard]
      omega
    rw [shellTable, if_pos std]
    exact Option.some_ne_none _
  · by_cases std : IsStandard d
    · right
      rw [shellTable, if_pos std]
      exact Option.some_ne_none _
    · left
      simp only [shellNumbering] at less ⊢
      rw [IsStandard] at std
      omega
  · rw [ptyRight_iff]
    exact fun right => absurd right.1 (by decide)

end UnixProgramming.Pty
