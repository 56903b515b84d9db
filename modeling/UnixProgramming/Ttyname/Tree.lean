import UnixProgramming.Ttyname.Pathname
import UnixProgramming.Library.Worklist

/-!
# The directories under `/dev`

The search goes from a directory to its subdirectories, apart from `.`, `..` and some paths that
it passes over. The directories that it can get to in this way are a tree, as an entry is in one
directory only.
-/

namespace UnixProgramming.Ttyname

open CMemory
open Ftw (isDir isDot slash NAME_MAX)

def isDirectory (sys : Sys) (path : Block) : Prop :=
  ∃ st, sys.stat path = some st ∧ isDir st.stMode

instance (sys : Sys) (path : Block) : Decidable (isDirectory sys path) :=
  match stat : sys.stat path with
  | none => .isFalse (by simp [isDirectory, stat])
  | some st => decidable_of_iff (isDir st.stMode) (by simp [isDirectory, stat])

/-- An entry that the search follows. -/
def Followed (sys : Sys) (skip : List Block) (dir name : Block) : Prop :=
  ¬ isDot name ∧ join dir name ∉ skip ∧ isDirectory sys (join dir name)

instance (sys : Sys) (skip : List Block) (dir : Block) : DecidablePred (Followed sys skip dir) :=
  fun _ => inferInstanceAs (Decidable (_ ∧ _ ∧ _))

def subdirs (sys : Sys) (skip : List Block) (dir : Block) : List Block :=
  (((sys.opendir dir).getD []).filter fun name => Followed sys skip dir name).map (join dir)

/-- The directories that can be reached from `/dev`. -/
def Reachable (sys : Sys) (skip : List Block) : Block → Prop :=
  Worklist.Reach (subdirs sys skip) [dev]

/-- An entry of a directory that is the terminal. -/
def Matches (sys : Sys) (fdstat : Stat) (dir name : Block) : Prop :=
  name ∈ (sys.opendir dir).getD [] ∧ ¬ isAlias (join dir name) ∧
    ∃ st, sys.stat (join dir name) = some st ∧ ¬ isDir st.stMode ∧ st.sameDevice fdstat

/-- A finite tree of directories that can be opened, with short paths. -/
structure FiniteTree (sys : Sys) (skip all : List Block) : Prop where
  finite : ∀ dir, Reachable sys skip dir → dir ∈ all
  opens : ∀ dir, Reachable sys skip dir → (sys.opendir dir).isSome
  stats : ∀ dir, Reachable sys skip dir → ∀ name ∈ (sys.opendir dir).getD [],
    (sys.stat (join dir name)).isSome
  short : ∀ dir, Reachable sys skip dir → ∀ name ∈ (sys.opendir dir).getD [], ¬ isDot name →
    (join dir name).length < 255
  dots : ∀ dir, Reachable sys skip dir → ∀ name, isDot name → isDirectory sys (join dir name)

section Paths

variable {sys : Sys} {skip : List Block} {dir dir' name name' : Block}

theorem mem_subdirs {path : Block} : path ∈ subdirs sys skip dir ↔
    ∃ name ∈ (sys.opendir dir).getD [], Followed sys skip dir name ∧ join dir name = path := by
  simp [subdirs, and_assoc]

theorem not_matches_of_isDirectory {fdstat : Stat} (below : isDirectory sys (join dir name)) :
    ¬ Matches sys fdstat dir name := by
  rintro ⟨-, -, st, stat, plain, -⟩
  obtain ⟨st', stat', below⟩ := below
  rw [stat] at stat'
  cases stat'
  exact plain below

theorem valid_of_mem (mem : name ∈ (sys.opendir dir).getD []) : name ≠ [] ∧ slash ∉ name := by
  cases listing : sys.opendir dir with
  | none => simp [listing] at mem
  | some names =>
      rw [listing] at mem
      obtain ⟨nonempty, -, noSlash, -⟩ := (sys.names dir names listing).2 name mem
      exact ⟨nonempty, noSlash⟩

theorem valid_of_isDot (dot : isDot name) : name ≠ [] ∧ slash ∉ name := by
  obtain rfl | rfl := dot <;> decide

/-- The last slash separates the directory from the name. -/
theorem join_inj (noSlash : slash ∉ name) (noSlash' : slash ∉ name')
    (same : join dir name = join dir' name') : dir = dir' ∧ name = name' := by
  obtain ⟨between, rfl, split⟩ | ⟨between, rfl, split⟩ := List.append_eq_append_iff.mp same
  · cases between with
    | nil => exact ⟨(List.append_nil _).symm, (List.cons.inj split).2⟩
    | cons c between =>
        refine absurd ?_ noSlash
        rw [(List.cons.inj split).2]
        simp
  · cases between with
    | nil => exact ⟨List.append_nil _, (List.cons.inj split).2.symm⟩
    | cons c between =>
        refine absurd ?_ noSlash'
        rw [(List.cons.inj split).2]
        simp

theorem dev_le_of_reachable (reach : Reachable sys skip dir) : dev.length ≤ dir.length := by
  induction reach with
  | start mem =>
      obtain rfl := List.mem_singleton.mp mem
      exact le_rfl
  | next _ step ih =>
      obtain ⟨name, -, -, rfl⟩ := mem_subdirs.mp step
      rw [length_join]
      omega

theorem worklistTree (sys : Sys) (skip : List Block) :
    Worklist.Tree (subdirs sys skip) [dev] where
  roots := List.nodup_singleton dev
  nodup dir _ := by
    have distinct : ((sys.opendir dir).getD []).Nodup := by
      cases listing : sys.opendir dir with
      | none => exact List.nodup_nil
      | some names => exact (sys.names dir names listing).1
    apply (distinct.filter _).map_on
    intro name mem name' mem' same
    have valid := valid_of_mem (List.mem_of_mem_filter mem)
    have valid' := valid_of_mem (List.mem_of_mem_filter mem')
    exact (join_inj valid.2 valid'.2 same).2
  parent a b c _ _ left right := by
    obtain ⟨name, mem, -, rfl⟩ := mem_subdirs.mp left
    obtain ⟨name', mem', -, same⟩ := mem_subdirs.mp right
    exact (join_inj (valid_of_mem mem').2 (valid_of_mem mem).2 same).1.symm
  noRoot a b reach step mem := by
    obtain ⟨name, -, -, rfl⟩ := mem_subdirs.mp step
    have longer := dev_le_of_reachable reach
    have same := congrArg List.length (List.mem_singleton.mp mem)
    rw [length_join] at same
    omega

/-- A list of directories that is closed under `subdirs` is a finite tree, if its directories are as
they have to be. -/
theorem FiniteTree.of_closed {all : List Block} (root : dev ∈ all)
    (closed : ∀ dir ∈ all, ∀ path ∈ subdirs sys skip dir, path ∈ all)
    (opens : ∀ dir ∈ all, (sys.opendir dir).isSome)
    (stats : ∀ dir ∈ all, ∀ name ∈ (sys.opendir dir).getD [], (sys.stat (join dir name)).isSome)
    (short : ∀ dir ∈ all, ∀ name ∈ (sys.opendir dir).getD [], ¬ isDot name →
      (join dir name).length < 255)
    (dots : ∀ dir ∈ all, isDirectory sys (join dir [46]) ∧ isDirectory sys (join dir [46, 46])) :
    FiniteTree sys skip all := by
  have finite : ∀ dir, Reachable sys skip dir → dir ∈ all :=
    fun dir reach => reach.mem (by simpa using root) closed
  refine ⟨finite, fun dir reach => opens dir (finite dir reach),
    fun dir reach => stats dir (finite dir reach),
    fun dir reach => short dir (finite dir reach), ?_⟩
  rintro dir reach name (rfl | rfl)
  · exact (dots dir (finite dir reach)).1
  · exact (dots dir (finite dir reach)).2

/-- A directory that is reached has a short path. -/
theorem FiniteTree.short_dir {all : List Block} (tree : FiniteTree sys skip all)
    (reach : Reachable sys skip dir) : dir.length < 255 := by
  cases reach with
  | start mem =>
      obtain rfl := List.mem_singleton.mp mem
      decide
  | next above step =>
      obtain ⟨name, mem, ⟨notDot, -⟩, rfl⟩ := mem_subdirs.mp step
      exact tree.short _ above name mem notDot

/-- The bytes at the end of a path are those of the name, if it is long enough. -/
theorem getElem?_join (i : Nat) (inside : i < name.length) :
    (join dir name)[(join dir name).length - 1 - i]? = name[name.length - 1 - i]? := by
  rw [length_join, join, List.getElem?_append_right (by omega)]
  obtain ⟨k, behind⟩ : ∃ k, dir.length + 1 + name.length - 1 - i - dir.length = k + 1 :=
    ⟨name.length - 1 - i, by omega⟩
  rw [behind, List.getElem?_cons_succ]
  congr 1
  omega

/-- `add` looks for `.` and `..` at the right place. -/
theorem endsInDot_join_iff (nonempty : name ≠ []) (noSlash : slash ∉ name) :
    endsInDot (join dir name) ↔ isDot name := by
  match name, nonempty with
  | [a], _ => simp [endsInDot, join, isDot]
  | [a, b], _ =>
      have notSlash : a ≠ slash := fun same => noSlash (by simp [same])
      simp [endsInDot, join, isDot, notSlash, and_comm]
  | a :: b :: c :: name, _ =>
      -- the bytes in front of the last one are in the name
      have inside : ∀ i, i < 3 → (join dir (a :: b :: c :: name))[
          (join dir (a :: b :: c :: name)).length - 1 - i]? ≠ some slash := by
        intro i small same
        rw [getElem?_join i (by simp only [List.length_cons]; omega)] at same
        exact noSlash (List.mem_of_getElem? same)
      have second := inside 1 (by omega)
      have third := inside 2 (by omega)
      rw [Nat.sub_sub] at second third
      simp [endsInDot, isDot, second, third]

end Paths

end UnixProgramming.Ttyname
