import UnixProgramming.FooTable.Table
import UnixProgramming.Library.Transition

/-!
# One lock for the table: `lock_test3.c`

`lock_test3.c` protects the counts with `hashlock` as well, so every function is one critical
section. `hashlock` is not recursive. A thread that asks for it a second time waits for itself.
That happens in `foo_find`, which calls `foo_hold` from inside of its own section; what it hands
to `foo_hold` is a pointer to the mutex of the object.

`f_count` is an `int`, and `foo_hold` does not look whether there is room for one more in it. Next
to the memory of the program a state holds the outstanding references, one entry for each,
and the objects that are linked, the one inserted last first.
-/

namespace UnixProgramming.FooTable.Coarse

open Linked Transition

structure State where
  table : Table
  hashlock : Bool
  refs : List Addr
  live : List Addr

inductive Stop
  | fault (f : Fault)
  | deadlock
  | mutexAsFoo (a : Addr)
  deriving DecidableEq

def access {α : Type*} : Except Fault α → Except Stop α := Except.mapError Stop.fault

@[simp] theorem access_ok {α : Type*} (x : α) : access (.ok x) = .ok x := rfl

/-- What a `struct foo *` of the program points at: an object, or the mutex inside of one. -/
inductive Pointer
  | object (a : Addr)
  | fLock (a : Addr)
  deriving DecidableEq

namespace State

def init : State := ⟨.empty, false, [], []⟩

def lockHash (s : State) : Except Stop State :=
  if s.hashlock then .error .deadlock else .ok ⟨s.table, true, s.refs, s.live⟩

def unlockHash (s : State) : State := ⟨s.table, false, s.refs, s.live⟩

/-- `block` is the value of `malloc`, `init` that of `pthread_mutex_init`. The caller gets the
first reference. The mutex of the object is taken and released in the section, where nobody
else can hold it. -/
def fooAlloc (s : State) (block : Option Addr) (init : Int) (id : Int) : Except Stop State :=
  match block with
  | none => return s
  | some a =>
      -- `free(fp)`
      if init ≠ 0 then return s
      else do
        let s ← s.lockHash
        return State.unlockHash ⟨s.table.fooAlloc a id, s.hashlock, a :: s.refs, a :: s.live⟩

def fooHold (s : State) (fp : Pointer) : Except Stop State := do
  let s ← s.lockHash
  match fp with
  | .object a =>
      let table ← access (s.table.incCount a)
      return State.unlockHash ⟨table, s.hashlock, a :: s.refs, s.live⟩
  | .fLock a => .error (.mutexAsFoo a)

def fooFind (s : State) (id : Int) : Except Stop (Option Addr × State) := do
  let s ← s.lockHash
  match ← access (s.table.scan id) with
  | none => return (none, s.unlockHash)
  | some a =>
      let s ← s.fooHold (.fLock a)
      return (some a, s.unlockHash)

/-- The mutex of the object is destroyed and the object freed behind the section, when nothing
leads to the object any more. -/
def fooRelease (s : State) (a : Addr) : Except Stop State := do
  let s ← s.lockHash
  let table ← access (s.table.decCount a)
  let fp ← access (table.read a)
  if fp.fCount = 0 then
    let table ← access (table.unlink a)
    return State.unlockHash ⟨table.free a, s.hashlock, s.refs.erase a, s.live.erase a⟩
  else
    return State.unlockHash ⟨table, s.hashlock, s.refs.erase a, s.live⟩

end State

inductive Action
  | alloc (block : Option Addr) (init : Int) (id : Int)
  | hold (a : Addr)
  | release (a : Addr)
  deriving DecidableEq

namespace State

/-- `malloc` hands out memory that is not in use, and objects are held and released by those
who have a reference. -/
def Enabled (s : State) : Action → Prop
  | .alloc block _ _ => ∀ a, block = some a → s.table.heap a = none
  | .hold a => a ∈ s.refs
  | .release a => a ∈ s.refs

def run (s : State) : Action → Except Stop State
  | .alloc block init id => s.fooAlloc block init id
  | .hold a => s.fooHold (.object a)
  | .release a => s.fooRelease a

end State

def Step (s : State) (act : Action) (s' : State) : Prop := s.Enabled act ∧ s.run act = .ok s'

/-! ## Buckets in the order of insertion -/

/-- The object at `a` belongs on the chain `i`. -/
def inBucket (t : Table) (i : Fin NHASH) (a : Addr) : Bool :=
  (t.heap a).any (hash ·.fId = i)

/-- The chain `i` as the objects inserted suggest it. -/
def State.chains (s : State) (i : Fin NHASH) : List Addr := s.live.filter (inBucket s.table i)

theorem inBucket_of_heap {t : Table} {a : Addr} {fp : Foo} (h : t.heap a = some fp)
    (i : Fin NHASH) : inBucket t i a = decide (hash fp.fId = i) := by
  rw [inBucket, h, Option.any_some]

/-- Only the identifier matters. -/
theorem inBucket_congr {t t' : Table} {a : Addr}
    (same : (t'.heap a).map Foo.data = (t.heap a).map Foo.data) (i : Fin NHASH) :
    inBucket t' i a = inBucket t i a := by
  cases ha : t.heap a with
  | none =>
      have gone : t'.heap a = none := by simpa [ha] using same
      rw [inBucket, inBucket, ha, gone]
  | some fp =>
      rw [ha] at same
      obtain ⟨fp', ha', data⟩ := Option.map_eq_some_iff.mp same
      have id : fp'.fId = fp.fId := congrArg Prod.snd data
      rw [inBucket_of_heap ha, inBucket_of_heap ha', id]

/-- The table is the representation of the objects inserted. -/
structure Shape (s : State) : Prop where
  unlocked : s.hashlock = false
  repr : Represents s.table s.chains
  live : ∀ a, a ∈ s.live ↔ s.table.heap a ≠ none
  distinct : s.live.Nodup

/-- As long as no count runs over, the count of every object is the number of references to it. -/
structure Inv (s : State) : Prop extends Shape s where
  counted : ∀ a fp, s.table.heap a = some fp → fp.fCount = s.refs.count a
  referenced : ∀ a, s.table.heap a = none → a ∉ s.refs
  counts : ∀ a fp, s.table.heap a = some fp → fp.Counts

section Chains

variable {s : State} {t' : Table} {locked : Bool} {refs : List Addr} {a : Addr} {id : Int}

theorem chains_alloc (fresh : a ∉ s.live) :
    State.chains ⟨s.table.fooAlloc a id, locked, refs, a :: s.live⟩ =
      Function.update s.chains (hash id) (a :: s.chains (hash id)) := by
  have old : ∀ i, s.live.filter (inBucket (s.table.fooAlloc a id) i) = s.chains i := by
    intro i
    apply List.filter_congr
    intro b mem
    have ne : b ≠ a := by
      rintro rfl
      exact fresh mem
    apply inBucket_congr
    simp [Table.fooAlloc, ne]
  have here : ∀ i, inBucket (s.table.fooAlloc a id) i a = decide (hash id = i) := by
    intro i
    simp [inBucket, Table.fooAlloc]
  funext i
  rw [State.chains, List.filter_cons, here, old]
  by_cases same : i = hash id
  · subst same
    simp
  · simp [same, Ne.symm same]

/-- Taking an object out keeps the order of all others. -/
theorem chains_erase (distinct : s.live.Nodup)
    (kept : ∀ b, b ≠ a → (t'.heap b).map Foo.data = (s.table.heap b).map Foo.data)
    (i : Fin NHASH) :
    State.chains ⟨t', locked, refs, s.live.erase a⟩ i = (s.chains i).erase a := by
  have distinct' : (s.chains i).Nodup := distinct.filter _
  rw [distinct'.erase_eq_filter, State.chains, distinct.erase_eq_filter, State.chains,
    List.filter_filter, List.filter_filter]
  apply List.filter_congr
  intro b _
  by_cases same : b = a
  · simp [same]
  · rw [inBucket_congr (kept b same), Bool.and_comm]

end Chains

namespace Shape

variable {s s' : State} {act : Action} {a : Addr} {fp : Foo} {t' : Table} {refs : List Addr}

theorem init : Shape .init where
  unlocked := rfl
  repr := .empty
  live := by simp [State.init, Table.empty]
  distinct := List.nodup_nil

theorem lock (shape : Shape s) : s.lockHash = .ok ⟨s.table, true, s.refs, s.live⟩ := by
  rw [State.lockHash, if_neg (by simp [shape.unlocked])]

/-- An object is stored at `a`, which is new or known. -/
theorem put (shape : Shape s) {live : List Addr}
    (repr : Represents t' (State.chains ⟨t', false, refs, live⟩)) (self : t'.heap a = some fp)
    (other : ∀ b, b ≠ a → t'.heap b = s.table.heap b)
    (linked : ∀ b, b ∈ live ↔ b = a ∨ b ∈ s.live) (distinct : live.Nodup) :
    Shape ⟨t', false, refs, live⟩ := by
  constructor
  case unlocked => rfl
  case repr => exact repr
  case live =>
    intro b
    rw [linked b]
    by_cases same : b = a
    · subst same
      simp [self]
    · simp [same, other b same, shape.live b]
  case distinct => exact distinct

/-- The section of `foo_alloc`. -/
theorem alloc (shape : Shape s) (fresh : s.table.heap a = none) (id : Int) :
    Shape ⟨s.table.fooAlloc a id, false, refs, a :: s.live⟩ := by
  have notLive : a ∉ s.live := fun mem => (shape.live a).mp mem fresh
  have self : (s.table.fooAlloc a id).heap a = some ⟨1, id, s.table.fh (hash id)⟩ := by
    simp [Table.fooAlloc]
  apply shape.put _ self
  · intro b ne
    simp [Table.fooAlloc, ne]
  · intro b
    exact List.mem_cons
  · exact List.nodup_cons.mpr ⟨notLive, shape.distinct⟩
  · rw [chains_alloc notLive]
    exact shape.repr.fooAlloc fresh id

/-- A store to the count. -/
theorem recount (shape : Shape s) (ha : s.table.heap a = some fp) {count : Int} :
    Shape ⟨s.table.store a { fp with fCount := count }, false, refs, s.live⟩ := by
  have other : ∀ b, b ≠ a → (s.table.store a { fp with fCount := count }).heap b =
      s.table.heap b := by
    intro b ne
    simp [Table.store, ne]
  have self : (s.table.store a { fp with fCount := count }).heap a =
      some { fp with fCount := count } := by
    simp [Table.store]
  have chains : State.chains ⟨s.table.store a { fp with fCount := count }, false, refs, s.live⟩ =
      s.chains := by
    funext i
    apply List.filter_congr
    intro b _
    by_cases same : b = a
    · subst same
      rw [inBucket_of_heap self, inBucket_of_heap ha]
    · rw [inBucket, inBucket, other b same]
  apply shape.put _ self other _ shape.distinct
  · rw [chains]
    exact shape.repr.store ha rfl rfl
  · intro b
    constructor
    · exact .inr
    · rintro (rfl | mem)
      · simp [shape.live, ha]
      · exact mem

theorem fooHold_eq (shape : Shape s) (ha : s.table.heap a = some fp) :
    s.fooHold (.object a) = .ok ⟨s.table.store a { fp with fCount := asInt (fp.fCount + 1) }, false,
      a :: s.refs, s.live⟩ := by
  simp [State.fooHold, shape.lock, incCount_of_heap ha, State.unlockHash]

/-- A release that is not the last one. -/
theorem fooRelease_drop (shape : Shape s) (ha : s.table.heap a = some fp)
    (more : asInt (fp.fCount - 1) ≠ 0) :
    s.fooRelease a = .ok ⟨s.table.store a { fp with fCount := asInt (fp.fCount - 1) }, false,
      s.refs.erase a, s.live⟩ := by
  have stored : (s.table.store a { fp with fCount := asInt (fp.fCount - 1) }).heap a =
      some { fp with fCount := asInt (fp.fCount - 1) } := by
    simp [Table.store]
  simp [State.fooRelease, shape.lock, decCount_of_heap ha, read_of_heap stored, more,
    State.unlockHash]

/-- The last release frees the object. It finds the object on its chain. -/
theorem fooRelease_last (shape : Shape s) (ha : s.table.heap a = some fp)
    (last : asInt (fp.fCount - 1) = 0) :
    ∃ t', s.fooRelease a = .ok ⟨t', false, s.refs.erase a, s.live.erase a⟩ ∧
      Represents t' (Function.update s.chains (hash fp.fId) ((s.chains (hash fp.fId)).erase a)) ∧
      t'.heap a = none ∧
      ∀ b, b ≠ a → (t'.heap b).map Foo.data = (s.table.heap b).map Foo.data := by
  have stored : (s.table.store a { fp with fCount := 0 }).heap a =
      some { fp with fCount := 0 } := by
    simp [Table.store]
  have repr : Represents (s.table.store a { fp with fCount := 0 }) s.chains :=
    shape.repr.store ha rfl rfl
  obtain ⟨t', unlinked, repr', keptStored⟩ := repr.unlink_free stored
  have gone : (t'.free a).heap a = none := by simp [Table.free]
  have kept : ∀ b, b ≠ a →
      ((t'.free a).heap b).map Foo.data = (s.table.heap b).map Foo.data := by
    intro b ne
    have same := keptStored b ne
    simp only [Table.store, Function.update_of_ne ne] at same
    simpa [Table.free, ne] using same
  refine ⟨t'.free a, ?_, repr', gone, kept⟩
  simp [State.fooRelease, shape.lock, decCount_of_heap ha, last, read_of_heap stored, unlinked,
    State.unlockHash]

/-- Only the chain of its own bucket loses the object. -/
theorem chains_removed (shape : Shape s) (ha : s.table.heap a = some fp)
    (kept : ∀ b, b ≠ a → (t'.heap b).map Foo.data = (s.table.heap b).map Foo.data) :
    State.chains ⟨t', false, refs, s.live.erase a⟩ =
      Function.update s.chains (hash fp.fId) ((s.chains (hash fp.fId)).erase a) := by
  funext i
  rw [chains_erase shape.distinct kept]
  by_cases same : i = hash fp.fId
  · subst same
    simp
  · rw [Function.update_of_ne same, List.erase_of_not_mem (shape.repr.notMem_of_ne ha same)]

theorem removed (shape : Shape s) (ha : s.table.heap a = some fp)
    (repr : Represents t'
      (Function.update s.chains (hash fp.fId) ((s.chains (hash fp.fId)).erase a)))
    (gone : t'.heap a = none)
    (kept : ∀ b, b ≠ a → (t'.heap b).map Foo.data = (s.table.heap b).map Foo.data) :
    Shape ⟨t', false, refs, s.live.erase a⟩ := by
  constructor
  case unlocked => rfl
  case repr =>
    rw [shape.chains_removed ha kept]
    exact repr
  case live =>
    intro b
    rw [shape.distinct.mem_erase_iff, shape.live b]
    by_cases same : b = a
    · subst same
      simp [gone]
    · have absent : t'.heap b = none ↔ s.table.heap b = none := by
        rw [← Option.map_eq_none_iff, kept b same, Option.map_eq_none_iff]
      rw [ne_eq, ne_eq, ne_eq, absent]
      simp [same]
  case distinct => exact shape.distinct.erase a

/-- Whatever the counts are. -/
theorem step (shape : Shape s) (hstep : Step s act s') : Shape s' := by
  obtain ⟨enabled, result⟩ := hstep
  cases act with
  | alloc block init id =>
      cases block with
      | none =>
          cases result
          exact shape
      | some a =>
          by_cases fails : init ≠ 0
          · rw [State.run, State.fooAlloc, if_pos fails] at result
            cases result
            exact shape
          · simp only [State.run, State.fooAlloc, if_neg fails, shape.lock] at result
            cases result
            exact shape.alloc (enabled a rfl) id
  | hold a =>
      cases ha : s.table.heap a with
      | none => simp [State.run, State.fooHold, shape.lock, Table.incCount, Table.read, ha, access,
          Except.mapError] at result
      | some fp =>
          rw [State.run, shape.fooHold_eq ha] at result
          cases result
          exact shape.recount ha
  | release a =>
      cases ha : s.table.heap a with
      | none => simp [State.run, State.fooRelease, shape.lock, Table.decCount, Table.read, ha,
          access, Except.mapError] at result
      | some fp =>
          by_cases last : asInt (fp.fCount - 1) = 0
          · obtain ⟨t', released, repr, gone, kept⟩ := shape.fooRelease_last ha last
            rw [State.run, released] at result
            cases result
            exact shape.removed ha repr gone kept
          · rw [State.run, shape.fooRelease_drop ha last] at result
            cases result
            exact shape.recount ha

theorem of_reachable (h : Reachable Step .init s) : Shape s :=
  h.invariant init fun _ _ _ shape hstep => shape.step hstep

end Shape

/-- The call does not count a reference in a count that is at its largest. -/
def Fits (s : State) : Action → Prop
  | .hold a => s.table.HasRoom a
  | .alloc _ _ _ | .release _ => True

namespace Inv

variable {s : State} {a : Addr} {fp : Foo} {id : Int}

theorem init : Inv .init where
  toShape := .init
  counted := by simp [State.init, Table.empty]
  referenced := by simp [State.init]
  counts := by simp [State.init, Table.empty]

theorem heap_of_mem_refs (inv : Inv s) (mem : a ∈ s.refs) :
    ∃ fp, s.table.heap a = some fp := by
  cases ha : s.table.heap a with
  | none => exact absurd mem (inv.referenced a ha)
  | some fp => exact ⟨fp, rfl⟩

/-- An object is stored at `a`, with as many references as it counts. -/
theorem put (inv : Inv s) {t' : Table} {refs live : List Addr}
    (shape : Shape ⟨t', false, refs, live⟩) (self : t'.heap a = some fp)
    (other : ∀ b, b ≠ a → t'.heap b = s.table.heap b)
    (counts : fp.Counts) (counted : fp.fCount = refs.count a)
    (others : ∀ b, b ≠ a → refs.count b = s.refs.count b) : Inv ⟨t', false, refs, live⟩ := by
  constructor
  case toShape => exact shape
  case counted =>
    intro b fp' hb
    by_cases same : b = a
    · subst same
      rw [self] at hb
      cases hb
      exact counted
    · rw [other b same] at hb
      rw [others b same]
      exact inv.counted b fp' hb
  case referenced =>
    intro b hb
    have ne : b ≠ a := by
      rintro rfl
      rw [self] at hb
      cases hb
    rw [other b ne] at hb
    apply List.count_eq_zero.mp
    rw [others b ne]
    exact List.count_eq_zero.mpr (inv.referenced b hb)
  case counts =>
    intro b fp' hb
    by_cases same : b = a
    · subst same
      rw [self] at hb
      cases hb
      exact counts
    · rw [other b same] at hb
      exact inv.counts b fp' hb

/-- The section of `foo_alloc`. -/
theorem alloc (inv : Inv s) (fresh : s.table.heap a = none) (id : Int) :
    Inv ⟨s.table.fooAlloc a id, false, a :: s.refs, a :: s.live⟩ := by
  have self : (s.table.fooAlloc a id).heap a = some ⟨1, id, s.table.fh (hash id)⟩ := by
    simp [Table.fooAlloc]
  apply inv.put (inv.toShape.alloc fresh id) self
  · intro b ne
    simp [Table.fooAlloc, ne]
  · have room : (1 : Int) ≤ INT_MAX := by decide
    exact ⟨Int.le_refl 1, room⟩
  · simp [List.count_eq_zero.mpr (inv.referenced a fresh)]
  · intro b ne
    exact List.count_cons_of_ne (Ne.symm ne)

/-- A store to the count, with as many references more or less. -/
theorem recount (inv : Inv s) (ha : s.table.heap a = some fp) {count : Int} {refs : List Addr}
    (low : 1 ≤ count) (high : count ≤ INT_MAX) (counted : count = refs.count a)
    (others : ∀ b, b ≠ a → refs.count b = s.refs.count b) :
    Inv ⟨s.table.store a { fp with fCount := count }, false, refs, s.live⟩ := by
  have self : (s.table.store a { fp with fCount := count }).heap a =
      some { fp with fCount := count } := by
    simp [Table.store]
  apply inv.put (inv.toShape.recount ha) self _ ⟨low, high⟩ counted others
  intro b ne
  simp [Table.store, ne]

/-- `foo_hold` of an object with a reference. -/
theorem hold (inv : Inv s) (mem : a ∈ s.refs) (room : s.table.HasRoom a) :
    ∃ s', s.fooHold (.object a) = .ok s' ∧ Inv s' := by
  obtain ⟨fp, ha⟩ := inv.heap_of_mem_refs mem
  have counts := inv.counts a fp ha
  have less := room fp ha
  refine ⟨_, inv.fooHold_eq ha, ?_⟩
  rw [counts.succ less]
  apply inv.recount ha
  · have := counts.1
    omega
  · omega
  · have := inv.counted a fp ha
    rw [List.count_cons_self]
    omega
  · intro b ne
    exact List.count_cons_of_ne (Ne.symm ne)

/-- A release that is not the last one. -/
theorem drop (inv : Inv s) (mem : a ∈ s.refs) (ha : s.table.heap a = some fp)
    (more : fp.fCount ≠ 1) : ∃ s', s.fooRelease a = .ok s' ∧ Inv s' := by
  have counts := inv.counts a fp ha
  have positive := counts.1
  have most := counts.2
  have notLast : asInt (fp.fCount - 1) ≠ 0 := by
    rw [counts.pred]
    omega
  refine ⟨_, inv.fooRelease_drop ha notLast, ?_⟩
  rw [counts.pred]
  apply inv.recount ha
  · omega
  · omega
  · have count := inv.counted a fp ha
    have pos := List.count_pos_iff.mpr mem
    rw [List.count_erase_self]
    omega
  · intro b ne
    exact List.count_erase_of_ne ne

/-- Taking the object with the only reference out of the table. -/
theorem removed (inv : Inv s) (ha : s.table.heap a = some fp) (one : fp.fCount = 1) {t' : Table}
    (shape : Shape ⟨t', false, s.refs.erase a, s.live.erase a⟩) (gone : t'.heap a = none)
    (kept : ∀ b, b ≠ a → (t'.heap b).map Foo.data = (s.table.heap b).map Foo.data) :
    Inv ⟨t', false, s.refs.erase a, s.live.erase a⟩ := by
  have before : ∀ b fp', t'.heap b = some fp' →
      b ≠ a ∧ ∃ fp₀, s.table.heap b = some fp₀ ∧ fp₀.fCount = fp'.fCount := by
    intro b fp' hb
    have ne : b ≠ a := by
      rintro rfl
      simp [gone] at hb
    have same := kept b ne
    rw [hb] at same
    obtain ⟨fp₀, hb₀, data⟩ := Option.map_eq_some_iff.mp same.symm
    exact ⟨ne, fp₀, hb₀, congrArg Prod.fst data⟩
  constructor
  case toShape => exact shape
  case counted =>
    intro b fp' hb
    obtain ⟨ne, fp₀, hb₀, count⟩ := before b fp' hb
    rw [List.count_erase_of_ne ne, ← count]
    exact inv.counted b fp₀ hb₀
  case referenced =>
    intro b hb
    by_cases same : b = a
    · subst same
      have count := inv.counted b fp ha
      apply List.count_eq_zero.mp
      rw [List.count_erase_self]
      omega
    · have absent : s.table.heap b = none := by
        rw [← Option.map_eq_none_iff, ← kept b same, Option.map_eq_none_iff]
        exact hb
      intro again
      exact inv.referenced b absent (List.mem_of_mem_erase again)
  case counts =>
    intro b fp' hb
    obtain ⟨ne, fp₀, hb₀, count⟩ := before b fp' hb
    rw [Foo.Counts, ← count]
    exact inv.counts b fp₀ hb₀

/-- What the last release leaves of every chain is the rest in its old order. -/
theorem destroy (inv : Inv s) (ha : s.table.heap a = some fp) (one : fp.fCount = 1) :
    ∃ s', s.fooRelease a = .ok s' ∧ Inv s' ∧ s'.table.heap a = none ∧
      (∀ i, s'.chains i = (s.chains i).erase a) ∧
      ∀ b, b ≠ a → (s'.table.heap b).map Foo.data = (s.table.heap b).map Foo.data := by
  have last : asInt (fp.fCount - 1) = 0 := by
    rw [one]
    rfl
  obtain ⟨t', released, repr, gone, kept⟩ := inv.fooRelease_last ha last
  have shape : Shape ⟨t', false, s.refs.erase a, s.live.erase a⟩ :=
    inv.toShape.removed ha repr gone kept
  exact ⟨_, released, inv.removed ha one shape gone kept, gone, chains_erase inv.distinct kept,
    kept⟩

/-- Every call that is enabled and has room for its count runs to its end. -/
theorem run (inv : Inv s) {act : Action} (enabled : s.Enabled act) (fits : Fits s act) :
    ∃ s', s.run act = .ok s' ∧ Inv s' := by
  cases act with
  | alloc block init id =>
      cases block with
      | none => exact ⟨s, rfl, inv⟩
      | some a =>
          by_cases fails : init ≠ 0
          · exact ⟨s, if_pos fails, inv⟩
          · refine ⟨_, ?_, inv.alloc (enabled a rfl) id⟩
            simp [State.run, State.fooAlloc, fails, inv.lock, State.unlockHash]
  | hold a => exact inv.hold enabled fits
  | release a =>
      obtain ⟨fp, ha⟩ := inv.heap_of_mem_refs enabled
      by_cases one : fp.fCount = 1
      · obtain ⟨s', result, inv', -⟩ := inv.destroy ha one
        exact ⟨s', result, inv'⟩
      · exact inv.drop enabled ha one

theorem step {s' : State} {act : Action} (inv : Inv s) (fits : Fits s act)
    (hstep : Step s act s') : Inv s' := by
  obtain ⟨enabled, result⟩ := hstep
  obtain ⟨s₁, result', inv'⟩ := inv.run enabled fits
  rw [result'] at result
  cases result
  exact inv'

theorem of_reachable (h : Reachable (Guarded Fits Step) .init s) : Inv s :=
  h.invariant init fun _ _ _ inv ⟨fits, hstep⟩ => inv.step fits hstep

end Inv

/-! ## What the table guarantees -/

/-- The chains of the buckets end and hold every object once, the counts are the numbers of
references, no enabled call goes wrong, and the last release of an object takes exactly that
object off its chain. -/
structure TableSound (s : State) : Prop where
  chain : ∀ i, Chain s.table.links (s.table.fh i) (s.chains i)
  nodup : ∀ i, (s.chains i).Nodup
  member : ∀ a fp, s.table.heap a = some fp → ∀ i, a ∈ s.chains i ↔ i = hash fp.fId
  live : ∀ i, ∀ a ∈ s.chains i, s.table.heap a ≠ none
  count : ∀ a fp, s.table.heap a = some fp → fp.fCount = s.refs.count a ∧ 1 ≤ fp.fCount
  runs : ∀ act, s.Enabled act → ∃ s', s.run act = .ok s'
  lastRelease : ∀ a fp, s.table.heap a = some fp → fp.fCount = 1 →
    ∃ s', s.run (.release a) = .ok s' ∧ s'.table.heap a = none ∧
      (∀ i, Chain s'.table.links (s'.table.fh i) ((s.chains i).erase a)) ∧
      ∀ b, b ≠ a → (s'.table.heap b).map Foo.data = (s.table.heap b).map Foo.data

/-- Every sequence of allocations, holds and releases in which no count is incremented at `INT_MAX`
keeps the table sound. -/
theorem table_sound {s : State} (h : Reachable (Guarded Fits Step) .init s) : TableSound s := by
  have inv := Inv.of_reachable h
  constructor
  case chain => exact inv.repr.chain
  case nodup =>
    intro i
    exact (inv.repr.chain i).nodup
  case member =>
    intro a fp ha i
    constructor
    · intro mem
      by_contra ne
      exact inv.repr.notMem_of_ne ha ne mem
    · rintro rfl
      exact inv.repr.mem_hash ha
  case live =>
    intro i a mem gone
    exact inv.repr.notMem gone i mem
  case count =>
    intro a fp ha
    exact ⟨inv.counted a fp ha, (inv.counts a fp ha).1⟩
  case runs =>
    intro act enabled
    cases act with
    | hold a =>
        obtain ⟨fp, ha⟩ := inv.heap_of_mem_refs enabled
        exact ⟨_, inv.fooHold_eq ha⟩
    | alloc block init id =>
        obtain ⟨s', result, -⟩ := inv.run enabled trivial
        exact ⟨s', result⟩
    | release a =>
        obtain ⟨s', result, -⟩ := inv.run enabled trivial
        exact ⟨s', result⟩
  case lastRelease =>
    intro a fp ha one
    obtain ⟨s', result, inv', gone, chains, kept⟩ := inv.destroy ha one
    refine ⟨s', result, gone, fun i => ?_, kept⟩
    rw [← chains i]
    exact inv'.repr.chain i

/-- Two objects with one negative identifier; the newer one is released for good. -/
theorem table_sound_duplicate :
    ∃ s, Reachable (Guarded Fits Step) .init s ∧ s.live = [0] ∧ s.refs = [0, 0] ∧
      TableSound s := by
  have run : ∃ s, Steps (Guarded Fits Step) .init
      [.alloc (some 0) 0 (-7), .alloc (some 1) 0 (-7), .alloc none 0 3, .alloc (some 2) 12 3,
        .hold 0, .release 1] s ∧ s.live = [0] ∧ s.refs = [0, 0] := by
    refine ⟨_, .cons ⟨trivial, ?_, rfl⟩ (.cons ⟨trivial, ?_, rfl⟩ (.cons ⟨trivial, ?_, rfl⟩
      (.cons ⟨trivial, ?_, rfl⟩ (.cons ⟨?_, ?_, rfl⟩ (.single ⟨trivial, ?_, rfl⟩))))), rfl, rfl⟩
    · intro a h
      rfl
    · intro a h
      cases h
      rfl
    · intro a h
      cases h
    · intro a h
      cases h
      rfl
    · intro fp h
      cases h
      decide
    · exact .tail _ (.head _)
    · exact .tail _ (.head _)
  obtain ⟨s, steps, live, refs⟩ := run
  exact ⟨s, ⟨_, steps⟩, live, refs, table_sound ⟨_, steps⟩⟩

/-- A caller with a reference takes `n` more. -/
theorem hold_steps {s : State} {a : Addr} {fp : Foo} (shape : Shape s)
    (ha : s.table.heap a = some fp) (whole : asInt fp.fCount = fp.fCount) (mem : a ∈ s.refs)
    (n : Nat) :
    ∃ s', Steps Step s (List.replicate n (.hold a)) s' ∧ Shape s' ∧
      s'.table.heap a = some { fp with fCount := asInt (fp.fCount + n) } ∧
      s'.refs = List.replicate n a ++ s.refs := by
  induction n with
  | zero =>
      refine ⟨s, .nil s, shape, ?_, rfl⟩
      rw [ha, Int.natCast_zero, Int.add_zero, whole]
  | succ n ih =>
      obtain ⟨u, steps, shape', object, refs⟩ := ih
      have enabled : a ∈ u.refs := refs ▸ List.mem_append_right _ mem
      have next : Step u (.hold a) _ := ⟨enabled, shape'.fooHold_eq object⟩
      have steps' := steps.append (.single next)
      rw [← List.replicate_succ'] at steps'
      refine ⟨_, steps', shape'.step next, ?_, congrArg (a :: ·) refs⟩
      rw [asInt_add, Int.add_assoc, ← Int.natCast_succ]
      simp [Table.store]

/-- The object is held so often that its count is one again, and then released once. -/
theorem table_sound_overflow :
    ∃ s, Steps Step .init (.alloc (some 0) 0 7 :: List.replicate 4294967296 (.hold 0) ++
        [.release 0]) s ∧
      0 ∈ s.refs ∧ s.table.heap 0 = none ∧ ¬ TableSound s := by
  have alloc : ∃ s, Step .init (.alloc (some 0) 0 7) s ∧ s.table.heap 0 = some ⟨1, 7, none⟩ ∧
      s.refs = [0] := by
    refine ⟨_, ⟨?_, rfl⟩, rfl, rfl⟩
    intro a h
    rfl
  obtain ⟨s, first, object, refs⟩ := alloc
  have shape : Shape s := Shape.init.step first
  obtain ⟨u, holds, shape', object', refs'⟩ :=
    hold_steps shape object rfl (refs ▸ List.mem_cons_self) 4294967296
  have one : asInt (1 + (4294967296 : Nat)) = 1 := rfl
  rw [one] at object'
  rw [refs] at refs'
  obtain ⟨t', released, -, gone, -⟩ := shape'.fooRelease_last object' rfl
  have enabled : 0 ∈ u.refs := refs' ▸ List.mem_append_right _ (.head _)
  have last : Step u (.release 0) _ := ⟨enabled, released⟩
  have left : 0 ∈ u.refs.erase 0 := by
    apply List.count_pos_iff.mp
    rw [List.count_erase_self, refs', List.count_append, List.count_replicate_self]
    decide
  refine ⟨_, (Steps.cons first holds).append (.single last), left, gone, ?_⟩
  intro sound
  -- one of the others holds the object once more
  obtain ⟨s', result⟩ := sound.runs (.hold 0) left
  simp [State.run, State.fooHold, State.lockHash, Table.incCount, Table.read, gone, access,
    Except.mapError] at result

/-! ## `foo_find` -/

/-- The object at `a` has the identifier. -/
def named (t : Table) (id : Int) (a : Addr) : Bool := (t.heap a).any (·.fId = id)

/-- A search runs to its end with `hashlock` free. It returns the object with the identifier that
was inserted last, with one more reference and nothing else changed, or else null. -/
def FindsRight (s : State) (id : Int) : Prop :=
  ∃ ret s', s.fooFind id = .ok (ret, s') ∧ s'.hashlock = false ∧
    ret = s.live.find? (named s.table id) ∧ (ret = none → s'.table = s.table) ∧
    ∀ a, ret = some a → ∃ fp, s.table.heap a = some fp ∧
      s'.table = s.table.store a { fp with fCount := fp.fCount + 1 }

/-- With a match, the call of `foo_hold` waits for the lock that its own thread holds. -/
theorem Shape.fooFind_deadlock {s : State} {a : Addr} {fp : Foo} (shape : Shape s)
    (ha : s.table.heap a = some fp) : s.fooFind fp.fId = .error .deadlock := by
  have found : ∃ b, s.table.scan fp.fId = .ok (some b) := by
    rw [shape.repr.scan_eq]
    cases search :
        (s.chains (hash fp.fId)).find? fun b => (s.table.heap b).any (·.fId = fp.fId) with
    | some b => exact ⟨b, rfl⟩
    | none =>
        have missed := List.find?_eq_none.mp search a (shape.repr.mem_hash ha)
        simp [ha] at missed
  obtain ⟨b, found⟩ := found
  have waits : State.fooHold ⟨s.table, true, s.refs, s.live⟩ (.fLock b) = .error .deadlock := rfl
  simp [State.fooFind, shape.lock, found, waits]

theorem Shape.fooFind_none {s : State} {id : Int} (shape : Shape s)
    (absent : ∀ a fp, s.table.heap a = some fp → fp.fId ≠ id) : s.fooFind id = .ok (none, s) := by
  have missed : s.table.scan id = .ok none := by
    cases search : s.table.scan id with
    | error f =>
        rw [shape.repr.scan_eq] at search
        cases search
    | ok found =>
        cases found with
        | none => rfl
        | some a =>
            obtain ⟨fp, ha, same⟩ := shape.repr.scan_sound search
            exact absurd same (absent a fp ha)
  have same : State.unlockHash ⟨s.table, true, s.refs, s.live⟩ = s := by
    rw [State.unlockHash, ← shape.unlocked]
  simp [State.fooFind, shape.lock, missed, same]

/-- `foo_find` does its work exactly where there is nothing to find. -/
theorem fooFind_right_iff {s : State} (h : Reachable Step .init s) (id : Int) :
    FindsRight s id ↔ ∀ a fp, s.table.heap a = some fp → fp.fId ≠ id := by
  have shape := Shape.of_reachable h
  constructor
  · rintro ⟨ret, s', result, -⟩ a fp ha rfl
    rw [shape.fooFind_deadlock ha] at result
    cases result
  · intro absent
    refine ⟨none, s, shape.fooFind_none absent, shape.unlocked, ?_, fun _ => rfl, fun a h => ?_⟩
    · symm
      apply List.find?_eq_none.mpr
      intro a _
      cases ha : s.table.heap a with
      | none => simp [named, ha]
      | some fp => simp [named, ha, absent a fp ha]
    · cases h

/-- A search of a bucket whose only object has another identifier. -/
theorem fooFind_right_other :
    ∃ s, Reachable Step .init s ∧ s.live = [0] ∧ FindsRight s 36 := by
  have run : ∃ s, Steps Step .init [.alloc (some 0) 0 7] s ∧ s.live = [0] ∧
      s.table.heap = Function.update (fun _ => none) 0 (some ⟨1, 7, none⟩) := by
    refine ⟨_, .single ⟨?_, rfl⟩, rfl, rfl⟩
    intro a h
    rfl
  obtain ⟨s, steps, live, heap⟩ := run
  refine ⟨s, ⟨_, steps⟩, live, (fooFind_right_iff ⟨_, steps⟩ 36).mpr ?_⟩
  intro a fp ha
  rw [heap] at ha
  by_cases same : a = 0
  · subst same
    cases ha
    decide
  · simp [same] at ha

/-- One object, and a search for its identifier. -/
theorem fooFind_waits_for_itself :
    ∃ s, Steps Step .init [.alloc (some 0) 0 7] s ∧ s.live = [0] ∧
      s.table.heap 0 = some ⟨1, 7, none⟩ ∧ s.hashlock = false ∧
      s.fooFind 7 = .error .deadlock ∧ ¬ FindsRight s 7 := by
  have run : ∃ s, Steps Step .init [.alloc (some 0) 0 7] s ∧ s.live = [0] ∧
      s.table.heap 0 = some ⟨1, 7, none⟩ ∧ s.hashlock = false ∧
      s.fooFind 7 = .error .deadlock := by
    refine ⟨_, .single ⟨?_, rfl⟩, rfl, rfl, rfl, rfl⟩
    intro a h
    rfl
  obtain ⟨s, steps, live, object, unlocked, deadlock⟩ := run
  refine ⟨s, steps, live, object, unlocked, deadlock, ?_⟩
  rintro ⟨ret, s', result, -⟩
  rw [deadlock] at result
  cases result

end UnixProgramming.FooTable.Coarse
