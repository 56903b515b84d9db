import Mathlib.Data.List.Count
import Mathlib.Tactic.Common

/-!
# `myfunc` of `ch4_directory/test.c`

`myfunc` is called for every file and directory of a tree and counts them by their type. Its
inner `switch` compares the whole of `st_mode` with the file types, without masking the
permissions.
-/

namespace UnixProgramming.Ftw

abbrev Mode := UInt32

def S_IFMT : Mode := 0o170000

/-- The types of files that are not directories. -/
inductive Kind
  | reg
  | blk
  | chr
  | fifo
  | lnk
  | sock
  deriving DecidableEq

/-- `S_IFREG`, `S_IFBLK`, `S_IFCHR`, `S_IFIFO`, `S_IFLNK` and `S_IFSOCK`. -/
def Kind.mode : Kind → Mode
  | reg => 0o100000
  | blk => 0o060000
  | chr => 0o020000
  | fifo => 0o010000
  | lnk => 0o120000
  | sock => 0o140000

def S_IFDIR : Mode := 0o040000

/-- What a visit is about. The last two are an unreadable directory and a failed `stat`. -/
inductive FtwType
  | f
  | d
  | dnr
  | ns
  deriving DecidableEq

structure Totals where
  nreg : Nat
  ndir : Nat
  nblk : Nat
  nchr : Nat
  nfifo : Nat
  nslink : Nat
  nsock : Nat
  deriving DecidableEq

namespace Totals

/-- The variables before the first visit. -/
def zero : Totals := ⟨0, 0, 0, 0, 0, 0, 0⟩

/-- The variable for a type of files. -/
def count (t : Totals) : Kind → Nat
  | .reg => t.nreg
  | .blk => t.nblk
  | .chr => t.nchr
  | .fifo => t.nfifo
  | .lnk => t.nslink
  | .sock => t.nsock

/-- `ntot` of `traverse_directory_op_test`. -/
def ntot (t : Totals) : Nat :=
  t.nreg + t.ndir + t.nblk + t.nchr + t.nfifo + t.nslink + t.nsock

end Totals

/-- `myfunc`. `err_sys` prints and goes on. -/
def myfunc (t : Totals) (mode : Mode) (type : FtwType) : Int × Totals :=
  match type with
  | .f =>
      if mode = Kind.reg.mode then (0, { t with nreg := t.nreg + 1 })
      else if mode = Kind.blk.mode then (0, { t with nblk := t.nblk + 1 })
      else if mode = Kind.chr.mode then (0, { t with nchr := t.nchr + 1 })
      else if mode = Kind.fifo.mode then (0, { t with nfifo := t.nfifo + 1 })
      else if mode = Kind.lnk.mode then (0, { t with nslink := t.nslink + 1 })
      else if mode = Kind.sock.mode then (0, { t with nsock := t.nsock + 1 })
      else (0, t)
  | .d => (0, { t with ndir := t.ndir + 1 })
  | .dnr => (0, t)
  | .ns => (0, t)

structure Visit where
  mode : Mode
  type : FtwType
  deriving DecidableEq

/-- A sequence of visits. -/
def visitAll (t : Totals) (visits : List Visit) : Totals :=
  visits.foldl (fun t v => (myfunc t v.mode v.type).2) t

/-! ## What the variables count -/

/-- A file of the type `k`, whatever its permissions. -/
def Visit.isFile (v : Visit) (k : Kind) : Bool :=
  decide (v.type = .f) && decide (v.mode &&& S_IFMT = k.mode)

/-- A file whose mode is the type `k` and nothing else. -/
def Visit.isBare (v : Visit) (k : Kind) : Bool := decide (v.type = .f) && decide (v.mode = k.mode)

def Visit.isDir (v : Visit) : Bool := decide (v.type = .d)

theorem Kind.mode_and_mask (k : Kind) : k.mode &&& S_IFMT = k.mode := by
  cases k <;> decide

/-- Each variable counts the modes it stands for. -/
theorem count_myfunc (t : Totals) (v : Visit) (k : Kind) :
    (myfunc t v.mode v.type).2.count k = t.count k + (v.isBare k).toNat := by
  obtain ⟨mode, type⟩ := v
  cases type with
  | f =>
      by_cases known : ∃ k', mode = Kind.mode k'
      · obtain ⟨k', rfl⟩ := known
        cases k' <;> cases k <;> rfl
      · have unknown (k' : Kind) : mode ≠ k'.mode := fun same => known ⟨k', same⟩
        simp [myfunc, Visit.isBare, unknown]
  | d => cases k <;> rfl
  | dnr => rfl
  | ns => rfl

theorem ndir_myfunc (t : Totals) (v : Visit) :
    (myfunc t v.mode v.type).2.ndir = t.ndir + v.isDir.toNat := by
  obtain ⟨mode, type⟩ := v
  cases type with
  | f =>
      simp only [myfunc]
      split_ifs <;> rfl
  | d => rfl
  | dnr => rfl
  | ns => rfl

theorem count_visitAll (t : Totals) (visits : List Visit) (k : Kind) :
    (visitAll t visits).count k = t.count k + visits.countP (·.isBare k) := by
  induction visits generalizing t with
  | nil => rfl
  | cons v visits ih =>
      rw [visitAll, List.foldl_cons, ← visitAll, ih, count_myfunc, List.countP_cons]
      cases v.isBare k <;> simp
      omega

theorem ndir_visitAll (t : Totals) (visits : List Visit) :
    (visitAll t visits).ndir = t.ndir + visits.countP (·.isDir) := by
  induction visits generalizing t with
  | nil => rfl
  | cons v visits ih =>
      rw [visitAll, List.foldl_cons, ← visitAll, ih, ndir_myfunc, List.countP_cons]
      cases v.isDir <;> simp
      omega

/-! ## Exact totals -/

/-- A visit of a file of a known type, or of a directory, with any other bits in the mode. -/
def Visit.Valid (v : Visit) : Prop :=
  (∃ k, v.isFile k) ∨ v.isDir ∧ v.mode &&& S_IFMT = S_IFDIR

/-- Each variable has grown by the number of files of its type, and the total by the number of
visits. -/
structure TotalsRight (t t' : Totals) (visits : List Visit) : Prop where
  files : ∀ k, t'.count k = t.count k + visits.countP (·.isFile k)
  dirs : t'.ndir = t.ndir + visits.countP (·.isDir)
  total : t'.ntot = t.ntot + visits.length

theorem isFile_of_isBare {v : Visit} {k : Kind} (h : v.isBare k) : v.isFile k := by
  simp only [Visit.isBare, Visit.isFile, Bool.and_eq_true, decide_eq_true_eq] at h ⊢
  obtain ⟨type, mode⟩ := h
  rw [mode]
  exact ⟨type, k.mode_and_mask⟩

/-- A file without permissions is counted for its type. -/
theorem isBare_iff_isFile {v : Visit} (bare : v.type = .f → v.mode &&& S_IFMT = v.mode)
    (k : Kind) : v.isBare k ↔ v.isFile k := by
  refine ⟨isFile_of_isBare, fun h => ?_⟩
  simp only [Visit.isBare, Visit.isFile, Bool.and_eq_true, decide_eq_true_eq] at h ⊢
  obtain ⟨type, mode⟩ := h
  rw [bare type] at mode
  exact ⟨type, mode⟩

/-- Two tests that are equally often true of a list, one of which implies the other. -/
theorem forall_of_countP_eq {α : Type*} {p q : α → Bool} (imp : ∀ a, p a → q a) {l : List α}
    (same : l.countP p = l.countP q) : ∀ a ∈ l, q a → p a := by
  induction l with
  | nil => simp
  | cons b l ih =>
      have le : l.countP p ≤ l.countP q := List.countP_mono_left fun a _ => imp a
      rw [List.countP_cons, List.countP_cons] at same
      intro a mem holds
      have here : q b → p b := by
        intro hq
        by_contra hp
        simp [hp, hq] at same
        omega
      have later : l.countP p = l.countP q := by
        by_cases hq : q b
        · simpa [hq, here hq] using same
        · have hp : ¬ p b := fun hp => hq (imp b hp)
          simpa [hp, hq] using same
      obtain rfl | mem := List.mem_cons.mp mem
      · exact here holds
      · exact ih later a mem holds

theorem ntot_myfunc {v : Visit} (h : (∃ k, v.isBare k) ∨ v.isDir) (t : Totals) :
    (myfunc t v.mode v.type).2.ntot = t.ntot + 1 := by
  obtain ⟨mode, type⟩ := v
  obtain ⟨k, bare⟩ | dir := h
  · simp only [Visit.isBare, Bool.and_eq_true, decide_eq_true_eq] at bare
    obtain ⟨rfl, rfl⟩ := bare
    cases k <;> simp [myfunc, Kind.mode, Totals.ntot] <;> omega
  · simp only [Visit.isDir, decide_eq_true_eq] at dir
    subst dir
    simp only [myfunc, Totals.ntot]
    omega

theorem ntot_visitAll {visits : List Visit}
    (h : ∀ v ∈ visits, (∃ k, v.isBare k) ∨ v.isDir) (t : Totals) :
    (visitAll t visits).ntot = t.ntot + visits.length := by
  induction visits generalizing t with
  | nil => rfl
  | cons v visits ih =>
      rw [visitAll, List.foldl_cons, ← visitAll, ih fun v mem => h v (List.mem_cons_of_mem _ mem),
        ntot_myfunc (h v List.mem_cons_self), List.length_cons]
      omega

/-- The totals are exact exactly where no file has a permission, setuid, setgid or sticky bit. -/
theorem totals_right_iff {visits : List Visit} (valid : ∀ v ∈ visits, v.Valid) (t : Totals) :
    TotalsRight t (visitAll t visits) visits ↔
      ∀ v ∈ visits, v.type = .f → v.mode &&& S_IFMT = v.mode := by
  constructor
  · intro right v mem type
    obtain ⟨k, isFile⟩ | ⟨dir, -⟩ := valid v mem
    · have same : visits.countP (·.isBare k) = visits.countP (·.isFile k) :=
        Nat.add_left_cancel ((count_visitAll t visits k).symm.trans (right.files k))
      have bare := forall_of_countP_eq (fun v => isFile_of_isBare) same v mem isFile
      simp only [Visit.isBare, Bool.and_eq_true, decide_eq_true_eq] at bare
      rw [bare.2, k.mode_and_mask]
    · simp [Visit.isDir, type] at dir
  · intro bare
    constructor
    case files =>
      intro k
      rw [count_visitAll]
      congr 1
      exact List.countP_congr fun v mem => isBare_iff_isFile (bare v mem) k
    case dirs => exact ndir_visitAll t visits
    case total =>
      refine ntot_visitAll (fun v mem => ?_) t
      obtain ⟨k, isFile⟩ | ⟨dir, -⟩ := valid v mem
      · exact .inl ⟨k, (isBare_iff_isFile (bare v mem) k).mpr isFile⟩
      · exact .inr dir

/-- A directory and a file without permissions. -/
theorem totals_right_bare :
    TotalsRight .zero (visitAll .zero [⟨0o040755, .d⟩, ⟨0o100000, .f⟩])
      [⟨0o040755, .d⟩, ⟨0o100000, .f⟩] := by
  refine (totals_right_iff ?_ .zero).mpr (by decide)
  intro v mem
  obtain rfl | rfl : v = ⟨0o040755, .d⟩ ∨ v = ⟨0o100000, .f⟩ := by simpa using mem
  · exact .inr ⟨rfl, by decide⟩
  · exact .inl ⟨.reg, by decide⟩

/-- A regular file with the usual permissions is counted nowhere. -/
theorem totals_drop_file :
    Visit.Valid ⟨0o100644, .f⟩ ∧ visitAll .zero [⟨0o100644, .f⟩] = .zero ∧
      ¬ TotalsRight .zero (visitAll .zero [⟨0o100644, .f⟩]) [⟨0o100644, .f⟩] := by
  refine ⟨.inl ⟨.reg, by decide⟩, by decide, ?_⟩
  intro right
  exact absurd right.total (by decide)

end UnixProgramming.Ftw
