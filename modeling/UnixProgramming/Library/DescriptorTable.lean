import Mathlib.Logic.Function.Basic

/-!
# Descriptor tables

A process has a table that says for each descriptor what it refers to, if it is open. Descriptors
are only numbers, so what a sequence of calls leaves depends on which of them are equal. A new
descriptor that is closed again leaves no trace.
-/

namespace DescriptorTable

abbrev Table (ι ρ : Type*) := ι → Option ρ

namespace Table

variable {ι ρ : Type*} [DecidableEq ι] {t : Table ι ρ} {fd d old new : ι} {r : ρ}

/-- A call that returns a descriptor. -/
def opened (t : Table ι ρ) (fd : ι) (r : ρ) : Table ι ρ := Function.update t fd (some r)

def close (t : Table ι ρ) (fd : ι) : Table ι ρ := Function.update t fd none

def closeAll (t : Table ι ρ) (fds : List ι) : Table ι ρ := fds.foldl close t

/-- `dup2` fails for a descriptor that is not open. What `new` referred to is closed. -/
def dup2 (t : Table ι ρ) (old new : ι) : Option (Table ι ρ) := (t old).map (t.opened new)

@[simp] theorem opened_self (t : Table ι ρ) (fd : ι) (r : ρ) : t.opened fd r fd = some r :=
  Function.update_self _ _ _

theorem opened_of_ne (t : Table ι ρ) (r : ρ) (ne : d ≠ fd) : t.opened fd r d = t d :=
  Function.update_of_ne ne _ _

theorem close_of_ne (t : Table ι ρ) (ne : d ≠ fd) : t.close fd d = t d :=
  Function.update_of_ne ne _ _

theorem close_apply (t : Table ι ρ) (fd d : ι) : t.close fd d = if d = fd then none else t d :=
  Function.update_apply _ _ _ _

theorem opened_apply (t : Table ι ρ) (fd : ι) (r : ρ) (d : ι) :
    t.opened fd r d = if d = fd then some r else t d :=
  Function.update_apply _ _ _ _

/-- Closing a new descriptor leaves the table as it was. -/
theorem close_opened (new : t fd = none) (r : ρ) : (t.opened fd r).close fd = t := by
  rw [close, opened, Function.update_idem, ← new, Function.update_eq_self]

theorem closeAll_apply (t : Table ι ρ) (fds : List ι) (d : ι) :
    t.closeAll fds d = if d ∈ fds then none else t d := by
  induction fds generalizing t with
  | nil => simp [closeAll]
  | cons fd fds ih =>
      have rest : t.closeAll (fd :: fds) d = (t.close fd).closeAll fds d := rfl
      rw [rest, ih, close_apply]
      by_cases later : d ∈ fds
      · simp [later]
      · simp [later]

theorem dup2_eq (isOpen : t old = some r) (new : ι) : t.dup2 old new = some (t.opened new r) := by
  rw [dup2, isOpen]
  rfl

theorem dup2_eq_none (closed : t old = none) (new : ι) : t.dup2 old new = none := by
  rw [dup2, closed]
  rfl

end Table

end DescriptorTable
