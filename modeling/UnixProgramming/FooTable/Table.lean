import Mathlib.Data.List.Perm.Subperm
import Mathlib.Data.List.Range
import Mathlib.Tactic.Common
import UnixProgramming.Library.Fallible
import UnixProgramming.Library.Linked

/-!
# The hash table of reference-counted objects

`lock_test2.c` and `lock_test3.c` keep the same `struct foo` objects on the same
`NHASH` chains; they differ in how they lock them. This file is the memory the two
share: the heap of objects, the bucket array `fh`, and the code that runs inside
their critical sections. An access through a pointer to no allocated object is a
fault, and so is following a null pointer. A count that runs over wraps.

`Represents` is the abstract view of a table. Each bucket has a finite list of
objects, and an object is allocated exactly when it is on the list of its bucket.
-/

namespace UnixProgramming.FooTable

open Linked

/-- Addresses that `malloc` hands out. An address can be used again after `free`. -/
abbrev Addr := Nat

def NHASH : Nat := 29

/-- `HASH(id)`. The conversion to `unsigned long` wraps a negative identifier. -/
def hash (id : Int) : Fin NHASH :=
  ⟨(BitVec.ofInt 64 id).toNat % NHASH, Nat.mod_lt _ (by decide)⟩

/-- The largest `int`. -/
def INT_MAX : Int := 2147483647

/-- What an `int` holds of a result. C leaves an overflow undefined; the machine wraps. -/
def asInt (n : Int) : Int := n.bmod 4294967296

theorem asInt_of_fits {n : Int} (low : -2147483648 ≤ n) (high : n ≤ INT_MAX) : asInt n = n := by
  apply Int.bmod_eq_of_le
  · exact low
  · exact Int.lt_add_one_of_le high

/-- One after the other it is the same as at once. -/
theorem asInt_add (m n : Int) : asInt (asInt m + n) = asInt (m + n) := Int.bmod_add_bmod

/-- The fields of `struct foo` apart from its mutex. -/
structure Foo where
  fCount : Int
  fId : Int
  fNext : Option Addr
  deriving DecidableEq

/-- A count as it is while it has not run over. -/
def Foo.Counts (fp : Foo) : Prop := 1 ≤ fp.fCount ∧ fp.fCount ≤ INT_MAX

/-- The next `fp->f_count++` is right. -/
theorem Foo.Counts.succ {fp : Foo} (counts : fp.Counts) (room : fp.fCount < INT_MAX) :
    asInt (fp.fCount + 1) = fp.fCount + 1 := by
  obtain ⟨positive, _⟩ := counts
  exact asInt_of_fits (by omega) (by omega)

theorem Foo.Counts.pred {fp : Foo} (counts : fp.Counts) :
    asInt (fp.fCount - 1) = fp.fCount - 1 := by
  obtain ⟨positive, most⟩ := counts
  exact asInt_of_fits (by omega) (by omega)

/-- What an unlink of another object must not change. -/
def Foo.data (fp : Foo) : Int × Int := (fp.fCount, fp.fId)

/-- Allocated objects and bucket heads. All addresses in use lie below `brk`. -/
structure Table where
  heap : Addr → Option Foo
  fh : Fin NHASH → Option Addr
  brk : Nat

inductive Fault
  | useAfterFree (a : Addr)
  | nullPointer
  | endless
  deriving DecidableEq

namespace Table

/-- `fh` as the loader initialises it, before any allocation. -/
def empty : Table := ⟨fun _ => none, fun _ => none, 0⟩

/-- The `f_next` fields, as the chain walks see them. -/
def links (t : Table) : Links Addr := fun a => (t.heap a).map Foo.fNext

def read (t : Table) (a : Addr) : Except Fault Foo :=
  match t.heap a with
  | some fp => .ok fp
  | none => .error (.useAfterFree a)

def store (t : Table) (a : Addr) (fp : Foo) : Table :=
  { t with heap := Function.update t.heap a (some fp) }

def free (t : Table) (a : Addr) : Table :=
  { t with heap := Function.update t.heap a none }

/-- The object set up by `foo_alloc` at the address `a`, linked at its bucket head. -/
def fooAlloc (t : Table) (a : Addr) (id : Int) : Table :=
  let idx := hash id
  { heap := Function.update t.heap a (some ⟨1, id, t.fh idx⟩)
    fh := Function.update t.fh idx (some a)
    brk := max t.brk (a + 1) }

/-- `fp->f_count++`. -/
def incCount (t : Table) (a : Addr) : Except Fault Table := do
  let fp ← t.read a
  return t.store a { fp with fCount := asInt (fp.fCount + 1) }

/-- `fp->f_count--`. -/
def decCount (t : Table) (a : Addr) : Except Fault Table := do
  let fp ← t.read a
  return t.store a { fp with fCount := asInt (fp.fCount - 1) }

/-- The loop of `foo_find`: the first object of the bucket with this identifier. -/
def scan (t : Table) (id : Int) : Except Fault (Option Addr) :=
  match walk t.links (fun a => (t.heap a).any (·.fId = id)) t.brk (t.fh (hash id)) with
  | .found a => .ok (some a)
  | .null => .ok none
  | .dangling a => .error (.useAfterFree a)
  | .outOfFuel => .error .endless

/-- The part of `foo_release` that takes `fp` off its chain: either it is the bucket
head, or `while (tfp->f_next != fp)` looks for its predecessor. -/
def unlink (t : Table) (a : Addr) : Except Fault Table := do
  let fp ← t.read a
  let idx := hash fp.fId
  if t.fh idx = some a then
    return { t with fh := Function.update t.fh idx fp.fNext }
  else
    match walk t.links (fun tfp => t.links tfp = some (some a)) t.brk (t.fh idx) with
    | .found b =>
        let tfp ← t.read b
        return t.store b { tfp with fNext := fp.fNext }
    | .null => .error .nullPointer
    | .dangling b => .error (.useAfterFree b)
    | .outOfFuel => .error .endless

end Table

/-- The count of the object at `a` can go up by one. -/
def Table.HasRoom (t : Table) (a : Addr) : Prop := ∀ fp, t.heap a = some fp → fp.fCount < INT_MAX

/-- `Represents t chains`: the bucket `i` of `t` is the list `chains i`, and an object
is allocated exactly when it is on the list of the bucket of its identifier. -/
structure Represents (t : Table) (chains : Fin NHASH → List Addr) : Prop where
  chain : ∀ i, Chain t.links (t.fh i) (chains i)
  mem : ∀ i a, a ∈ chains i ↔ ∃ fp, t.heap a = some fp ∧ hash fp.fId = i
  bound : ∀ a fp, t.heap a = some fp → a < t.brk

theorem links_update (t : Table) (a : Addr) (v : Option Foo) :
    (fun b => (Function.update t.heap a v b).map Foo.fNext) =
      Function.update t.links a (v.map Foo.fNext) := by
  funext b
  by_cases h : b = a
  · subst h
    simp
  · simp [h, Table.links]

theorem links_store (t : Table) (a : Addr) (fp : Foo) :
    (t.store a fp).links = Function.update t.links a (some fp.fNext) :=
  links_update t a (some fp)

theorem links_free (t : Table) (a : Addr) :
    (t.free a).links = Function.update t.links a none :=
  links_update t a none

theorem read_of_heap {t : Table} {a : Addr} {fp : Foo} (h : t.heap a = some fp) :
    t.read a = .ok fp := by
  simp [Table.read, h]

theorem incCount_of_heap {t : Table} {a : Addr} {fp : Foo} (h : t.heap a = some fp) :
    t.incCount a = .ok (t.store a { fp with fCount := asInt (fp.fCount + 1) }) := by
  simp [Table.incCount, read_of_heap h]

theorem decCount_of_heap {t : Table} {a : Addr} {fp : Foo} (h : t.heap a = some fp) :
    t.decCount a = .ok (t.store a { fp with fCount := asInt (fp.fCount - 1) }) := by
  simp [Table.decCount, read_of_heap h]

namespace Represents

variable {t t' : Table} {chains : Fin NHASH → List Addr} {a b : Addr} {fp : Foo} {id : Int}

theorem empty : Represents Table.empty fun _ => [] :=
  ⟨fun _ => rfl, by simp [Table.empty], by simp [Table.empty]⟩

/-- The high-water mark of the allocator bounds the length of every chain. -/
theorem length_le (h : Represents t chains) (i : Fin NHASH) : (chains i).length ≤ t.brk := by
  have below : ∀ a ∈ chains i, a ∈ List.range t.brk := by
    intro a ha
    obtain ⟨fp, hfp, _⟩ := (h.mem i a).mp ha
    exact List.mem_range.mpr (h.bound a fp hfp)
  simpa using ((h.chain i).nodup.subperm below).length_le

/-- An address without an object is on no chain. -/
theorem notMem (h : Represents t chains) (ha : t.heap a = none) (i : Fin NHASH) :
    a ∉ chains i := by
  intro hmem
  obtain ⟨fp, hfp, _⟩ := (h.mem i a).mp hmem
  simp [ha] at hfp

theorem mem_hash (h : Represents t chains) (ha : t.heap a = some fp) :
    a ∈ chains (hash fp.fId) :=
  (h.mem _ a).mpr ⟨fp, ha, rfl⟩

/-- An object is on the chain of its own bucket only. -/
theorem notMem_of_ne (h : Represents t chains) (ha : t.heap a = some fp) {i : Fin NHASH}
    (hi : i ≠ hash fp.fId) : a ∉ chains i := by
  intro hmem
  obtain ⟨fp', hfp', rfl⟩ := (h.mem i a).mp hmem
  rw [ha] at hfp'
  cases hfp'
  exact hi rfl

/-- Linking a new object puts it at the head of its bucket. -/
theorem fooAlloc (h : Represents t chains) (ha : t.heap a = none) (id : Int) :
    Represents (t.fooAlloc a id)
      (Function.update chains (hash id) (a :: chains (hash id))) := by
  refine ⟨?_, ?_, ?_⟩
  · intro i
    have hlinks : (t.fooAlloc a id).links = Function.update t.links a (some (t.fh (hash id))) :=
      links_update t a _
    rw [hlinks]
    by_cases hi : i = hash id
    · subst hi
      simpa [Table.fooAlloc] using (h.chain _).push (h.notMem ha _)
    · simpa [Table.fooAlloc, hi] using (h.chain i).update_of_notMem (h.notMem ha i) _
  · intro i b
    by_cases hb : b = a
    · subst hb
      by_cases hi : i = hash id
      · subst hi
        simp [Table.fooAlloc]
      · simp [Table.fooAlloc, hi, Ne.symm hi, h.notMem ha]
    · by_cases hi : i = hash id
      · subst hi
        simp [Table.fooAlloc, hb, h.mem]
      · simp [Table.fooAlloc, hb, hi, h.mem]
  · intro b fp hb
    by_cases hba : b = a
    · subst hba
      exact Nat.lt_of_lt_of_le (Nat.lt_succ_self b) (Nat.le_max_right t.brk (b + 1))
    · have old := h.bound b fp (by simpa [Table.fooAlloc, hba] using hb)
      exact Nat.lt_of_lt_of_le old (Nat.le_max_left t.brk (a + 1))

/-- A store that keeps identifier and successor keeps every chain. -/
theorem store (h : Represents t chains) (ha : t.heap a = some fp) {fp' : Foo}
    (hid : fp'.fId = fp.fId) (hnext : fp'.fNext = fp.fNext) :
    Represents (t.store a fp') chains := by
  have hlinks : (t.store a fp').links = t.links := by
    have same : t.links a = some fp'.fNext := by simp [Table.links, ha, hnext]
    rw [links_store, ← same, Function.update_eq_self]
  refine ⟨fun i => hlinks ▸ h.chain i, ?_, ?_⟩
  · intro i b
    rw [h.mem]
    by_cases hb : b = a
    · subst hb
      simp [Table.store, ha, hid]
    · simp [Table.store, hb]
  · intro b fp₀ hb
    by_cases hba : b = a
    · subst hba
      exact h.bound b fp ha
    · exact h.bound b fp₀ (by simpa [Table.store, hba] using hb)

/-- The search of `foo_find` returns the first match on the list of the bucket. -/
theorem scan_eq (h : Represents t chains) (id : Int) :
    t.scan id =
      .ok ((chains (hash id)).find? fun a => (t.heap a).any (·.fId = id)) := by
  rw [Table.scan, (h.chain _).walk_eq (h.length_le _)]
  cases (chains (hash id)).find? fun a => (t.heap a).any (·.fId = id) <;> rfl

/-- A successful search returns an allocated object with the identifier. -/
theorem scan_sound (h : Represents t chains) (hscan : t.scan id = .ok (some a)) :
    ∃ fp, t.heap a = some fp ∧ fp.fId = id := by
  rw [h.scan_eq] at hscan
  have found := List.find?_some (Except.ok.inj hscan)
  cases ha : t.heap a with
  | none => simp [ha] at found
  | some fp => exact ⟨fp, rfl, by simpa [ha] using found⟩

/-- Removal in the abstract: `a` is gone, the chain of its bucket lost exactly `a`,
the other chains are as before and so is the data of every other object. -/
theorem removed (h : Represents t chains) (ha : t.heap a = some fp)
    (bucket : Chain t'.links (t'.fh (hash fp.fId)) ((chains (hash fp.fId)).erase a))
    (others : ∀ i, i ≠ hash fp.fId → Chain t'.links (t'.fh i) (chains i))
    (gone : t'.heap a = none)
    (kept : ∀ b, b ≠ a → (t'.heap b).map Foo.data = (t.heap b).map Foo.data)
    (hbrk : t'.brk = t.brk) :
    Represents t' (Function.update chains (hash fp.fId) ((chains (hash fp.fId)).erase a)) := by
  have kept_id : ∀ b i, b ≠ a →
      ((∃ fp, t'.heap b = some fp ∧ hash fp.fId = i) ↔
        ∃ fp, t.heap b = some fp ∧ hash fp.fId = i) := by
    intro b i hb
    have same := congrArg (Option.map fun d => hash d.2) (kept b hb)
    simp only [Option.map_map] at same
    have iff := congrArg (· = some i) same
    simpa [Option.map_eq_some_iff, Foo.data] using iff
  refine ⟨?_, ?_, ?_⟩
  · intro i
    by_cases hi : i = hash fp.fId
    · subst hi
      simpa using bucket
    · simpa [hi] using others i hi
  · intro i b
    by_cases hb : b = a
    · subst hb
      by_cases hi : i = hash fp.fId
      · subst hi
        simp [gone, (h.chain _).nodup.mem_erase_iff]
      · simpa [hi, gone] using h.notMem_of_ne ha hi
    · rw [kept_id b i hb, ← h.mem]
      by_cases hi : i = hash fp.fId
      · subst hi
        simp [(h.chain _).nodup.mem_erase_iff, hb]
      · simp [hi]
  · intro b fp' hb
    have hba : b ≠ a := by
      rintro rfl
      simp [gone] at hb
    obtain ⟨fp₀, hfp₀, _⟩ := (kept_id b _ hba).mp ⟨fp', hb, rfl⟩
    exact hbrk ▸ h.bound b fp₀ hfp₀

/-- Taking out the object at the head of its bucket. -/
theorem unlink_head (h : Represents t chains) (ha : t.heap a = some fp) {after : List Addr}
    (heq : chains (hash fp.fId) = a :: after) :
    ∃ t', t.unlink a = .ok t' ∧
      Represents (t'.free a)
        (Function.update chains (hash fp.fId) ((chains (hash fp.fId)).erase a)) ∧
      ∀ b, b ≠ a → (t'.heap b).map Foo.data = (t.heap b).map Foo.data := by
  have hchain := h.chain (hash fp.fId)
  rw [heq] at hchain
  have distinct := hchain.nodup
  obtain ⟨hhead, q, hq, rest⟩ := hchain
  have hnext : fp.fNext = q := by simpa [Table.links, ha] using hq
  let t' : Table := { t with fh := Function.update t.fh (hash fp.fId) fp.fNext }
  have hlinks : (t'.free a).links = Function.update t.links a none := links_free t' a
  refine ⟨t', by simp [Table.unlink, read_of_heap ha, hhead, t'], ?_, fun b _ => rfl⟩
  apply h.removed ha
  · rw [hlinks, heq]
    have notBehind : a ∉ after := (List.nodup_cons.mp distinct).1
    simpa [Table.free, t', hnext] using rest.update_of_notMem notBehind none
  · intro i hi
    rw [hlinks]
    simpa [Table.free, t', hi] using (h.chain i).update_of_notMem (h.notMem_of_ne ha hi) none
  · simp [Table.free]
  · intro b hb
    simp [Table.free, hb, t']
  · rfl

/-- Taking out an object with a predecessor `b`, which is where the walk stops. -/
theorem unlink_behind (h : Represents t chains) (ha : t.heap a = some fp)
    {front after : List Addr} (heq : chains (hash fp.fId) = front ++ b :: a :: after) :
    ∃ t', t.unlink a = .ok t' ∧
      Represents (t'.free a)
        (Function.update chains (hash fp.fId) ((chains (hash fp.fId)).erase a)) ∧
      ∀ c, c ≠ a → (t'.heap c).map Foo.data = (t.heap c).map Foo.data := by
  have hchain := h.chain (hash fp.fId)
  have hlength := h.length_le (hash fp.fId)
  rw [heq] at hchain hlength
  have distinct := hchain.nodup
  have hba : b ≠ a := by
    rintro rfl
    simp [List.nodup_append] at distinct
  have hhead : t.fh (hash fp.fId) ≠ some a := by
    intro hhead
    rw [hhead] at hchain
    cases front with
    | nil => exact hba (Option.some.inj hchain.1).symm
    | cons c front =>
        cases hchain.1
        simp at distinct
  have hnext : t.links a = some fp.fNext := by simp [Table.links, ha]
  obtain ⟨tfp, htfp, hb_hash⟩ := (h.mem _ b).mp (by simp [heq] : b ∈ chains (hash fp.fId))
  have hlinks : ((t.store b { tfp with fNext := fp.fNext }).free a).links =
      Function.update (Function.update t.links b (some fp.fNext)) a none := by
    rw [links_free, links_store]
  have erased : (chains (hash fp.fId)).erase a = front ++ b :: after := by
    rw [heq, List.erase_append_right, List.erase_cons_tail, List.erase_cons_head]
    · simpa using hba
    · intro hfront
      exact List.disjoint_of_nodup_append distinct hfront (by simp)
  have kept : ∀ c, ((t.store b { tfp with fNext := fp.fNext }).heap c).map Foo.data =
      (t.heap c).map Foo.data := by
    intro c
    by_cases hcb : c = b
    · subst hcb
      simp [Table.store, htfp, Foo.data]
    · simp [Table.store, hcb]
  refine ⟨t.store b { tfp with fNext := fp.fNext }, ?_, ?_, fun c _ => kept c⟩
  · simp [Table.unlink, read_of_heap ha, read_of_heap htfp, hhead, hchain.walk_pred hlength]
  · apply h.removed ha
    · have hnot : a ∉ front ++ b :: after := by
        rw [← erased]
        exact (h.chain _).nodup.not_mem_erase
      rw [hlinks, erased]
      exact (hchain.unlink hnext).update_of_notMem hnot none
    · intro i hi
      have hb_not : b ∉ chains i := h.notMem_of_ne htfp (hb_hash ▸ hi)
      rw [hlinks]
      exact ((h.chain i).update_of_notMem hb_not _).update_of_notMem (h.notMem_of_ne ha hi) none
    · simp [Table.free]
    · intro c hc
      rw [← kept c]
      simp [Table.free, hc]
    · rfl

/-- The unlink walk of `foo_release` always meets the object on its chain. It takes
exactly that object out, and freeing it leaves the data of the others alone. -/
theorem unlink_free (h : Represents t chains) (ha : t.heap a = some fp) :
    ∃ t', t.unlink a = .ok t' ∧
      Represents (t'.free a)
        (Function.update chains (hash fp.fId) ((chains (hash fp.fId)).erase a)) ∧
      ∀ b, b ≠ a → (t'.heap b).map Foo.data = (t.heap b).map Foo.data := by
  obtain ⟨before, after, heq⟩ := List.append_of_mem (h.mem_hash ha)
  obtain rfl | ⟨front, b, rfl⟩ := List.eq_nil_or_concat before
  · exact h.unlink_head ha heq
  · rw [List.concat_eq_append, List.append_assoc, List.singleton_append] at heq
    exact h.unlink_behind ha heq

end Represents

end UnixProgramming.FooTable
