import UnixProgramming.FooTable.Table
import UnixProgramming.Library.Transition

/-!
# Two-lock reference counting, one critical section at a time

The model of `lock_test2.c` in which a step is one critical section. `foo_alloc`,
`foo_hold` and `foo_find` are one section each. `foo_release` is one section when
the count is above one. When it finds the count at one it drops `f_lock`, and a
second section under both locks looks at the count again: `pending` holds the
threads between the two. A thread starts nothing new while it is pending.

`foo_find` is read as its evident intent, the scan of `fh[HASH(id)]` followed by
`foo_hold(fp)`. A failing `malloc` or `pthread_mutex_init` makes `foo_alloc` return
null without any effect, so it is not a step.
-/

namespace UnixProgramming.FooTable

abbrev Tid := Nat

instance decidableMemRefs (ref : Tid × Addr) (refs : List (Tid × Addr)) : Decidable (ref ∈ refs) :=
  inferInstance

/-- `refs` lists the outstanding references, one entry `(t, a)` for every reference
of thread `t` to the object at `a`. A pending release still owns its reference. -/
structure State where
  table : Table
  refs : List (Tid × Addr)
  pending : List (Tid × Addr)

inductive Action
  | alloc (t : Tid) (a : Addr) (id : Int)
  | hold (t : Tid) (a : Addr)
  | find (t : Tid) (id : Int)
  | releaseFirst (t : Tid) (a : Addr)
  | releaseSecond (t : Tid) (a : Addr)

/-- Why a step is not taken: it is not enabled, or it would be a memory fault. -/
inductive Stop
  | disabled
  | fault (f : Fault)
  deriving DecidableEq

def access {α : Type*} : Except Fault α → Except Stop α := Except.mapError Stop.fault

@[simp] theorem access_ok {α : Type*} (x : α) : access (.ok x) = .ok x := rfl

namespace State

def init : State := ⟨.empty, [], []⟩

/-- `t` is not between the two sections of a release. -/
def Idle (s : State) (t : Tid) : Prop := ∀ p ∈ s.pending, p.1 ≠ t

instance (s : State) (t : Tid) : Decidable (s.Idle t) :=
  inferInstanceAs (Decidable (∀ p ∈ s.pending, p.1 ≠ t))

def fooAlloc (s : State) (t : Tid) (a : Addr) (id : Int) : Except Stop State :=
  if s.Idle t ∧ s.table.heap a = none then
    .ok { s with table := s.table.fooAlloc a id, refs := (t, a) :: s.refs }
  else .error .disabled

def fooHold (s : State) (t : Tid) (a : Addr) : Except Stop State :=
  if s.Idle t ∧ (t, a) ∈ s.refs then do
    let table ← access (s.table.incCount a)
    return { s with table, refs := (t, a) :: s.refs }
  else .error .disabled

def fooFind (s : State) (t : Tid) (id : Int) : Except Stop State :=
  if s.Idle t then do
    match ← access (s.table.scan id) with
    | none => return s
    | some a =>
        let table ← access (s.table.incCount a)
        return { s with table, refs := (t, a) :: s.refs }
  else .error .disabled

/-- The first section of `foo_release`, under `f_lock` alone. -/
def fooReleaseFirst (s : State) (t : Tid) (a : Addr) : Except Stop State :=
  if s.Idle t ∧ (t, a) ∈ s.refs then do
    let fp ← access (s.table.read a)
    if fp.fCount = 1 then
      return { s with refs := s.refs.erase (t, a), pending := (t, a) :: s.pending }
    else
      let table ← access (s.table.decCount a)
      return { s with table, refs := s.refs.erase (t, a) }
  else .error .disabled

/-- The second section, under `hashlock` and `f_lock`. When the count is no longer
one the function returns, and the count is left as it is. -/
def fooReleaseSecond (s : State) (t : Tid) (a : Addr) : Except Stop State :=
  if (t, a) ∈ s.pending then do
    let fp ← access (s.table.read a)
    if fp.fCount ≠ 1 then
      return { s with pending := s.pending.erase (t, a) }
    else
      let table ← access (s.table.unlink a)
      return { s with table := table.free a, pending := s.pending.erase (t, a) }
  else .error .disabled

def step (s : State) : Action → Except Stop State
  | .alloc t a id => s.fooAlloc t a id
  | .hold t a => s.fooHold t a
  | .find t id => s.fooFind t id
  | .releaseFirst t a => s.fooReleaseFirst t a
  | .releaseSecond t a => s.fooReleaseSecond t a

end State

/-- One section of one thread, in any order of threads. -/
def Step (s : State) (act : Action) (s' : State) : Prop := s.step act = .ok s'

/-- The number of references to `a` in a list of references. -/
def refsTo (l : List (Tid × Addr)) (a : Addr) : Nat := l.countP (·.2 = a)

/-- References to `a` that have not been given up, pending releases included. -/
def State.outstanding (s : State) (a : Addr) : Nat := refsTo s.refs a + refsTo s.pending a

@[simp] theorem refsTo_nil (a : Addr) : refsTo [] a = 0 := rfl

@[simp] theorem refsTo_cons (l : List (Tid × Addr)) (t : Tid) (a b : Addr) :
    refsTo ((t, a) :: l) b = refsTo l b + if a = b then 1 else 0 := by
  simp [refsTo, List.countP_cons]

theorem refsTo_erase {l : List (Tid × Addr)} {t : Tid} {a : Addr} (h : (t, a) ∈ l)
    (b : Addr) : refsTo (l.erase (t, a)) b + (if a = b then 1 else 0) = refsTo l b := by
  rw [← refsTo_cons]
  exact ((List.perm_cons_erase h).countP_eq _).symm

theorem refsTo_pos_iff {l : List (Tid × Addr)} {a : Addr} :
    0 < refsTo l a ↔ ∃ t, (t, a) ∈ l := by
  simp [refsTo, List.countP_pos_iff]

/-- The section does not count a reference in a count that is at its largest. -/
def Fits (s : State) : Action → Prop
  | .hold _ a => s.table.HasRoom a
  | .find _ id => ∀ a, s.table.scan id = .ok (some a) → s.table.HasRoom a
  | .alloc _ _ _ | .releaseFirst _ _ | .releaseSecond _ _ => True

/-- Everything a section can do to a state, with the guards of the source branches. -/
inductive Effect (s : State) : Action → State → Prop
  | alloc {t a id} (fresh : s.table.heap a = none) :
      Effect s (.alloc t a id)
        { s with table := s.table.fooAlloc a id, refs := (t, a) :: s.refs }
  | hold {t a fp} (live : s.table.heap a = some fp) (held : (t, a) ∈ s.refs) :
      Effect s (.hold t a)
        { s with
          table := s.table.store a { fp with fCount := asInt (fp.fCount + 1) }
          refs := (t, a) :: s.refs }
  | found {t a id fp} (live : s.table.heap a = some fp)
      (first : s.table.scan id = .ok (some a)) :
      Effect s (.find t id)
        { s with
          table := s.table.store a { fp with fCount := asInt (fp.fCount + 1) }
          refs := (t, a) :: s.refs }
  | notFound {t id} : Effect s (.find t id) s
  | last {t a fp} (live : s.table.heap a = some fp) (one : fp.fCount = 1)
      (held : (t, a) ∈ s.refs) :
      Effect s (.releaseFirst t a)
        { s with refs := s.refs.erase (t, a), pending := (t, a) :: s.pending }
  | drop {t a fp} (live : s.table.heap a = some fp) (more : fp.fCount ≠ 1)
      (held : (t, a) ∈ s.refs) :
      Effect s (.releaseFirst t a)
        { s with
          table := s.table.store a { fp with fCount := asInt (fp.fCount - 1) }
          refs := s.refs.erase (t, a) }
  | recheck {t a fp} (live : s.table.heap a = some fp) (more : fp.fCount ≠ 1)
      (held : (t, a) ∈ s.pending) :
      Effect s (.releaseSecond t a) { s with pending := s.pending.erase (t, a) }
  | destroy {t a fp table} (live : s.table.heap a = some fp) (one : fp.fCount = 1)
      (held : (t, a) ∈ s.pending) (gone : table.heap a = none)
      (kept : ∀ b, b ≠ a → (table.heap b).map Foo.data = (s.table.heap b).map Foo.data) :
      Effect s (.releaseSecond t a)
        { s with table, pending := s.pending.erase (t, a) }

/-- The buckets are well formed and no reference is to a free address. -/
structure WellFormed (s : State) (chains : Fin NHASH → List Addr) : Prop where
  repr : Represents s.table chains
  unreferenced : ∀ a, s.table.heap a = none → s.outstanding a = 0

theorem WellFormed.live {s : State} {chains : Fin NHASH → List Addr} (wf : WellFormed s chains)
    {t : Tid} {a : Addr} (h : (t, a) ∈ s.refs ∨ (t, a) ∈ s.pending) :
    ∃ fp, s.table.heap a = some fp := by
  cases ha : s.table.heap a with
  | some fp => exact ⟨fp, rfl⟩
  | none =>
      have zero := wf.unreferenced a ha
      rw [State.outstanding] at zero
      obtain h | h := h
      · have := refsTo_pos_iff.mpr ⟨t, h⟩
        omega
      · have := refsTo_pos_iff.mpr ⟨t, h⟩
        omega

/-- A section on a well-formed state is either not enabled or runs to its end without
a fault. Its effect is one of those listed and the buckets stay well formed. -/
theorem step_effect {s : State} {chains : Fin NHASH → List Addr} (wf : WellFormed s chains)
    (act : Action) :
    s.step act = .error .disabled ∨
      ∃ s' chains', s.step act = .ok s' ∧ Effect s act s' ∧ Represents s'.table chains' := by
  cases act with
  | alloc t a id =>
      by_cases guard : s.Idle t ∧ s.table.heap a = none
      · exact .inr ⟨_, _, if_pos guard, .alloc guard.2, wf.repr.fooAlloc guard.2 id⟩
      · exact .inl (if_neg guard)
  | hold t a =>
      by_cases guard : s.Idle t ∧ (t, a) ∈ s.refs
      · obtain ⟨fp, hfp⟩ := wf.live (.inl guard.2)
        refine .inr ⟨_, chains, ?_, .hold hfp guard.2, wf.repr.store hfp rfl rfl⟩
        simp [State.step, State.fooHold, guard, incCount_of_heap hfp]
      · exact .inl (if_neg guard)
  | find t id =>
      by_cases guard : s.Idle t
      · cases hscan : (chains (hash id)).find? fun a => (s.table.heap a).any (·.fId = id) with
        | none =>
            refine .inr ⟨_, chains, ?_, .notFound, wf.repr⟩
            simp [State.step, State.fooFind, guard, wf.repr.scan_eq, hscan]
        | some a =>
            have hfound : s.table.scan id = .ok (some a) := by rw [wf.repr.scan_eq, hscan]
            obtain ⟨fp, hfp, _⟩ := wf.repr.scan_sound hfound
            refine .inr ⟨_, chains, ?_, .found hfp hfound, wf.repr.store hfp rfl rfl⟩
            simp [State.step, State.fooFind, guard, hfound, incCount_of_heap hfp]
      · exact .inl (if_neg guard)
  | releaseFirst t a =>
      by_cases guard : s.Idle t ∧ (t, a) ∈ s.refs
      · obtain ⟨fp, hfp⟩ := wf.live (.inl guard.2)
        by_cases one : fp.fCount = 1
        · refine .inr ⟨_, chains, ?_, .last hfp one guard.2, wf.repr⟩
          simp [State.step, State.fooReleaseFirst, guard, read_of_heap hfp, one]
        · refine .inr ⟨_, chains, ?_, .drop hfp one guard.2, wf.repr.store hfp rfl rfl⟩
          simp [State.step, State.fooReleaseFirst, guard, read_of_heap hfp, one,
            decCount_of_heap hfp]
      · exact .inl (if_neg guard)
  | releaseSecond t a =>
      by_cases guard : (t, a) ∈ s.pending
      · obtain ⟨fp, hfp⟩ := wf.live (.inr guard)
        by_cases one : fp.fCount = 1
        · obtain ⟨table, hunlink, hrepr, kept⟩ := wf.repr.unlink_free hfp
          have gone : (table.free a).heap a = none := by simp [Table.free]
          have others : ∀ b, b ≠ a →
              ((table.free a).heap b).map Foo.data = (s.table.heap b).map Foo.data := by
            intro b hb
            simpa [Table.free, hb] using kept b hb
          refine .inr ⟨_, _, ?_, .destroy hfp one guard gone others, hrepr⟩
          simp [State.step, State.fooReleaseSecond, guard, read_of_heap hfp, one, hunlink]
        · refine .inr ⟨_, chains, ?_, .recheck hfp one guard, wf.repr⟩
          simp [State.step, State.fooReleaseSecond, guard, read_of_heap hfp, one]
      · exact .inl (if_neg guard)

/-- The safety invariant. A count never falls below the references it stands for, and
an object that is still allocated has a positive count. -/
structure Inv (s : State) (chains : Fin NHASH → List Addr) : Prop
    extends WellFormed s chains where
  counted : ∀ a fp, s.table.heap a = some fp → s.outstanding a ≤ fp.fCount
  counts : ∀ a fp, s.table.heap a = some fp → fp.Counts

theorem inv_init : Inv .init fun _ => [] where
  repr := .empty
  unreferenced := by simp [State.init, State.outstanding]
  counted := by simp [State.init, Table.empty]
  counts := by simp [State.init, Table.empty]

/-- What a section does to the object at `b` and to the references to it. Only a recheck
that finds a count other than one gives up a reference without counting it. -/
inductive ObjectEffect (s s' : State) (act : Action) (b : Addr) : Prop
  | absent (before : s.table.heap b = none) (after : s'.table.heap b = none)
      (refs : s'.outstanding b = s.outstanding b)
  | created (fp' : Foo) (before : s.table.heap b = none) (after : s'.table.heap b = some fp')
      (count : fp'.fCount = 1) (refs : s'.outstanding b = s.outstanding b + 1)
  | counted (fp fp' : Foo) (before : s.table.heap b = some fp)
      (after : s'.table.heap b = some fp') (counts : fp'.Counts)
      (refs : fp'.fCount - s'.outstanding b = fp.fCount - s.outstanding b)
  | uncounted (fp : Foo) (before : s.table.heap b = some fp) (after : s'.table.heap b = some fp)
      (more : fp.fCount ≠ 1) (rechecked : ∃ t, act = .releaseSecond t b)
      (refs : s'.outstanding b + 1 = s.outstanding b)
  | destroyed (fp : Foo) (before : s.table.heap b = some fp) (after : s'.table.heap b = none)
      (one : fp.fCount = 1) (refs : s'.outstanding b + 1 = s.outstanding b)

/-- An object that a section does not touch keeps its count and its references. -/
theorem ObjectEffect.untouched {s s' : State} {chains : Fin NHASH → List Addr} {act : Action}
    {b : Addr} (inv : Inv s chains)
    (same : (s'.table.heap b).map Foo.data = (s.table.heap b).map Foo.data)
    (refs : s'.outstanding b = s.outstanding b) : ObjectEffect s s' act b := by
  cases hb : s.table.heap b with
  | none => exact .absent hb (by simpa [hb] using same) refs
  | some fp =>
      rw [hb] at same
      obtain ⟨fp', hfp', hdata⟩ := Option.map_eq_some_iff.mp same
      have hcount : fp'.fCount = fp.fCount := congrArg Prod.fst hdata
      have counts : fp'.Counts := by
        rw [Foo.Counts, hcount]
        exact inv.counts b fp hb
      exact .counted fp fp' hb hfp' counts (by omega)

theorem ObjectEffect.incremented {s s' : State} {chains : Fin NHASH → List Addr} {act : Action}
    {b : Addr} {fp : Foo} (inv : Inv s chains) (live : s.table.heap b = some fp)
    (room : fp.fCount < INT_MAX)
    (stored : s'.table.heap b = some { fp with fCount := asInt (fp.fCount + 1) })
    (refs : s'.outstanding b = s.outstanding b + 1) : ObjectEffect s s' act b := by
  have counts := inv.counts b fp live
  rw [counts.succ room] at stored
  apply ObjectEffect.counted fp { fp with fCount := fp.fCount + 1 } live stored
  · obtain ⟨positive, _⟩ := counts
    constructor
    · simp only
      omega
    · simp only
      omega
  · simp only
    omega

theorem Effect.on_object {s s' : State} {chains : Fin NHASH → List Addr} {act : Action}
    (h : Effect s act s') (inv : Inv s chains) (fits : Fits s act) (b : Addr) :
    ObjectEffect s s' act b := by
  cases h with
  | @alloc t a id fresh =>
      by_cases hab : a = b
      · subst hab
        exact .created ⟨1, id, s.table.fh (hash id)⟩ fresh (by simp [Table.fooAlloc]) rfl
          (by simp only [State.outstanding, refsTo_cons, if_true]; omega)
      · exact .untouched inv (by simp [Table.fooAlloc, Ne.symm hab])
          (by simp [State.outstanding, hab])
  | @hold t a fp live held =>
      by_cases hab : a = b
      · subst hab
        apply ObjectEffect.incremented inv live (fits fp live)
        · simp [Table.store]
        · simp only [State.outstanding, refsTo_cons, if_true]
          omega
      · exact .untouched inv (by simp [Table.store, Ne.symm hab])
          (by simp [State.outstanding, hab])
  | @found t a id fp live first =>
      by_cases hab : a = b
      · subst hab
        apply ObjectEffect.incremented inv live (fits a first fp live)
        · simp [Table.store]
        · simp only [State.outstanding, refsTo_cons, if_true]
          omega
      · exact .untouched inv (by simp [Table.store, Ne.symm hab])
          (by simp [State.outstanding, hab])
  | notFound => exact .untouched inv rfl rfl
  | @last t a fp live one held =>
      -- the reference moves from the list of references to the pending releases
      have erased := refsTo_erase held b
      refine .untouched inv rfl ?_
      simp only [State.outstanding, refsTo_cons]
      omega
  | @drop t a fp live more held =>
      have erased := refsTo_erase held b
      have counts := inv.counts a fp live
      rw [counts.pred]
      by_cases hab : a = b
      · subst hab
        refine .counted fp { fp with fCount := fp.fCount - 1 } live (by simp [Table.store]) ?_ ?_
        · obtain ⟨positive, most⟩ := counts
          constructor
          · simp only
            omega
          · simp only
            omega
        · simp only [State.outstanding, if_true] at erased ⊢
          omega
      · refine .untouched inv (by simp [Table.store, Ne.symm hab]) ?_
        simp only [State.outstanding, hab, if_false] at erased ⊢
        omega
  | @recheck t a fp live more held =>
      have erased := refsTo_erase held b
      by_cases hab : a = b
      · subst hab
        refine .uncounted fp live live more ⟨t, rfl⟩ ?_
        simp only [State.outstanding, if_true] at erased ⊢
        omega
      · refine .untouched inv rfl ?_
        simp only [State.outstanding, hab, if_false] at erased ⊢
        omega
  | @destroy t a fp table live one held gone kept =>
      have erased := refsTo_erase held b
      by_cases hab : a = b
      · subst hab
        refine .destroyed fp live gone one ?_
        simp only [State.outstanding, if_true] at erased ⊢
        omega
      · refine .untouched inv (kept b (Ne.symm hab)) ?_
        simp only [State.outstanding, hab, if_false] at erased ⊢
        omega

namespace ObjectEffect

variable {s s' : State} {chains : Fin NHASH → List Addr} {act : Action} {b : Addr} {fp' : Foo}

theorem unreferenced (effect : ObjectEffect s s' act b) (inv : Inv s chains)
    (hb : s'.table.heap b = none) : s'.outstanding b = 0 := by
  cases effect with
  | absent before after refs => rw [refs, inv.unreferenced b before]
  | created fp' before after => simp [hb] at after
  | counted fp fp' before after => simp [hb] at after
  | uncounted fp before after => simp [hb] at after
  | destroyed fp before after one refs =>
      have := inv.counted b fp before
      omega

theorem counted_of (effect : ObjectEffect s s' act b) (inv : Inv s chains)
    (hb : s'.table.heap b = some fp') : s'.outstanding b ≤ fp'.fCount := by
  cases effect with
  | absent before after => simp [hb] at after
  | created fp₁ before after count refs =>
      obtain rfl : fp' = fp₁ := by simpa [hb] using after
      have := inv.unreferenced b before
      omega
  | counted fp fp₁ before after counts refs =>
      obtain rfl : fp' = fp₁ := by simpa [hb] using after
      have := inv.counted b fp before
      omega
  | uncounted fp before after more rechecked refs =>
      obtain rfl : fp' = fp := by simpa [hb] using after
      have := inv.counted b fp' before
      omega
  | destroyed fp before after => simp [hb] at after

theorem counts_of (effect : ObjectEffect s s' act b) (inv : Inv s chains)
    (hb : s'.table.heap b = some fp') : fp'.Counts := by
  cases effect with
  | absent before after => simp [hb] at after
  | created fp₁ before after count =>
      obtain rfl : fp' = fp₁ := by simpa [hb] using after
      rw [Foo.Counts, count]
      decide
  | counted fp fp₁ before after counts =>
      obtain rfl : fp' = fp₁ := by simpa [hb] using after
      exact counts
  | uncounted fp before after =>
      obtain rfl : fp' = fp := by simpa [hb] using after
      exact inv.counts b fp' before
  | destroyed fp before after => simp [hb] at after

end ObjectEffect

theorem Inv.step {s s' : State} {chains : Fin NHASH → List Addr} {act : Action}
    (inv : Inv s chains) (fits : Fits s act) (h : Step s act s') :
    Effect s act s' ∧ ∃ chains', Inv s' chains' := by
  obtain disabled | ⟨s₁, chains', hstep, effect, repr⟩ := step_effect inv.toWellFormed act
  · rw [Step, disabled] at h
    cases h
  · rw [Step, hstep] at h
    cases h
    refine ⟨effect, chains', ⟨repr, ?_⟩, ?_, ?_⟩
    · exact fun b => (effect.on_object inv fits b).unreferenced inv
    · exact fun b fp' => (effect.on_object inv fits b).counted_of inv
    · exact fun b fp' => (effect.on_object inv fits b).counts_of inv

/-- The invariant holds in every state that any number of threads come to, as long as no count
runs over. -/
theorem inv_of_reachable {s : State}
    (h : Transition.Reachable (Transition.Guarded Fits Step) .init s) :
    ∃ chains, Inv s chains :=
  h.invariant (I := fun s => ∃ chains, Inv s chains) ⟨_, inv_init⟩
    fun _ _ _ ⟨_, inv⟩ ⟨fits, hstep⟩ => (inv.step fits hstep).2

end UnixProgramming.FooTable
