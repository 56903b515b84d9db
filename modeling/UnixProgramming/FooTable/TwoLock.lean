import UnixProgramming.FooTable.Sections

/-!
# What the two-lock discipline of `lock_test2.c` guarantees

Memory safety holds in every run in which no count is incremented at its largest: a count
never falls below the references it stands for, so an object outlives them all. `f_count`
is an `int` and nobody looks whether there is room in it; `2 ^ 32` references more make one
of it again. Exact counts do not hold even so. When the recheck in `foo_release` finds a
count other than one the function returns without decrementing it, and the object then keeps
one reference too many for ever. In the runs where every recheck still finds one, the counts
are exact and the last release frees the object.
-/

namespace UnixProgramming.FooTable

open Linked Transition

/-- Counts equal outstanding references, and an object without references is neither
allocated nor linked from any bucket. -/
structure RefCountExact (s : State) : Prop where
  count : ∀ a fp, s.table.heap a = some fp → fp.fCount = refsTo s.refs a
  freed : ∀ a, refsTo s.refs a = 0 →
    s.table.heap a = none ∧ ∀ i xs, Chain s.table.links (s.table.fh i) xs → a ∉ xs

/-- The recheck of a second section finds the count that the first section saw. -/
def RecheckHolds (s : State) : Action → Prop
  | .releaseSecond _ a => ∀ fp, s.table.heap a = some fp → fp.fCount = 1
  | _ => True

/-- A section that counts its references right. -/
def CountsRight (s : State) (act : Action) : Prop := RecheckHolds s act ∧ Fits s act

/-- While every recheck holds, each section keeps all counts equal to the references. -/
theorem Effect.exact_step {s s' : State} {chains : Fin NHASH → List Addr} {act : Action}
    (inv : Inv s chains) (effect : Effect s act s') (right : CountsRight s act)
    (exact : ∀ a fp, s.table.heap a = some fp → fp.fCount = s.outstanding a)
    (b : Addr) (fp' : Foo) (hb : s'.table.heap b = some fp') :
    fp'.fCount = s'.outstanding b := by
  obtain ⟨holds, fits⟩ := right
  cases effect.on_object inv fits b with
  | absent before after => simp [hb] at after
  | created fp₁ before after count refs =>
      obtain rfl : fp' = fp₁ := by simpa [hb] using after
      have := inv.unreferenced b before
      omega
  | counted fp fp₁ before after counts refs =>
      obtain rfl : fp' = fp₁ := by simpa [hb] using after
      have := exact b fp before
      omega
  | uncounted fp before after more rechecked refs =>
      -- this is the branch that the recheck condition excludes
      obtain ⟨t, rfl⟩ := rechecked
      exact absurd (holds fp before) more
  | destroyed fp before after => simp [hb] at after

theorem exact_of_countsRight {s : State} (h : Reachable (Guarded CountsRight Step) .init s) :
    ∃ chains, Inv s chains ∧
      ∀ a fp, s.table.heap a = some fp → fp.fCount = s.outstanding a := by
  apply h.invariant (I := fun s => ∃ chains, Inv s chains ∧
    ∀ a fp, s.table.heap a = some fp → fp.fCount = s.outstanding a)
  · exact ⟨_, inv_init, by simp [State.init, Table.empty]⟩
  · rintro s act s' ⟨chains, inv, exact⟩ ⟨right, hstep⟩
    obtain ⟨effect, chains', inv'⟩ := inv.step right.2 hstep
    exact ⟨chains', inv', effect.exact_step inv right exact⟩

/-- Two-lock reference counting is exact in every run whose rechecks all hold, and in which no
count is incremented at `INT_MAX`. -/
theorem refCount_exact {s : State} (h : Reachable (Guarded CountsRight Step) .init s)
    (quiet : s.pending = []) : RefCountExact s := by
  obtain ⟨chains, inv, exact⟩ := exact_of_countsRight h
  have outstanding : ∀ a, s.outstanding a = refsTo s.refs a := by
    intro a
    simp [State.outstanding, quiet]
  have freed : ∀ a, refsTo s.refs a = 0 → s.table.heap a = none := by
    intro a zero
    cases ha : s.table.heap a with
    | none => rfl
    | some fp =>
        have hcount := exact a fp ha
        have hpos := (inv.counts a fp ha).1
        rw [outstanding, zero] at hcount
        omega
  refine ⟨fun a fp ha => outstanding a ▸ exact a fp ha, fun a zero => ⟨freed a zero, ?_⟩⟩
  intro i xs chain
  rw [chain.unique (inv.repr.chain i)]
  exact inv.repr.notMem (freed a zero) i

/-- Two threads share an object and the first one releases it: the run meets the
condition and the count is the one reference left. -/
theorem refCount_exact_shared :
    ∃ s, Reachable (Guarded CountsRight Step) .init s ∧ s.refs = [(2, 0)] ∧
      s.pending = [] ∧ RefCountExact s := by
  have run : ∃ s, Steps (Guarded CountsRight Step) .init
      [.alloc 1 0 (-7), .find 2 (-7), .releaseFirst 1 0] s ∧ s.refs = [(2, 0)] ∧
      s.pending = [] := by
    refine ⟨_, .cons ⟨⟨trivial, trivial⟩, rfl⟩ (.cons ⟨⟨trivial, ?_⟩, rfl⟩
      (.single ⟨⟨trivial, trivial⟩, rfl⟩)), rfl, rfl⟩
    intro a found fp live
    cases found
    cases live
    decide
  obtain ⟨s, steps, refs, quiet⟩ := run
  exact ⟨s, ⟨_, steps⟩, refs, quiet, refCount_exact ⟨_, steps⟩ quiet⟩

/-- A finder comes between the two sections of a release. Once both threads have
released the object it is still allocated with count one, and no reference is left. -/
theorem refCount_leak :
    ∃ s, Steps Step .init [.alloc 1 0 7, .releaseFirst 1 0, .find 2 7, .releaseSecond 1 0,
        .releaseFirst 2 0] s ∧
      s.refs = [] ∧ s.pending = [] ∧ s.table.heap 0 = some ⟨1, 7, none⟩ ∧
      ¬ RefCountExact s := by
  refine ⟨_, Steps.of_foldlM_except rfl, rfl, rfl, rfl, ?_⟩
  intro exact
  have count := exact.count 0 ⟨1, 7, none⟩ rfl
  exact absurd count (by decide)

/-- No access to a freed object, in the step taken next and in every list of a bucket. -/
structure MemorySafe (s : State) : Prop where
  noFault : ∀ act f, s.step act ≠ .error (.fault f)
  freedLast : ∀ act s' a, Step s act s' → s.table.heap a ≠ none →
    s'.table.heap a = none → ∀ t, (t, a) ∉ s'.refs ∧ (t, a) ∉ s'.pending
  referenced : ∀ t a, (t, a) ∈ s.refs ∨ (t, a) ∈ s.pending → s.table.heap a ≠ none
  linked : ∀ i, ∃ xs, Chain s.table.links (s.table.fh i) xs ∧
    ∀ a ∈ xs, s.table.heap a ≠ none
  walkMeets : ∀ t a, (t, a) ∈ s.pending → ∃ fp xs, s.table.heap a = some fp ∧
    Chain s.table.links (s.table.fh (hash fp.fId)) xs ∧ a ∈ xs

/-- Only a section that counts nothing frees an object. -/
theorem Effect.fits_of_gone {s s' : State} {act : Action} {a : Addr} (effect : Effect s act s')
    (live : s.table.heap a ≠ none) (gone : s'.table.heap a = none) : Fits s act := by
  have stored {b : Addr} {fp : Foo} (gone : (s.table.store b fp).heap a = none) : False := by
    by_cases same : a = b
    · simp [Table.store, same] at gone
    · exact live (by simpa [Table.store, same] using gone)
  cases effect with
  | alloc fresh => trivial
  | hold _ _ => exact (stored gone).elim
  | found _ _ => exact (stored gone).elim
  | notFound => exact absurd gone live
  | last _ _ _ => trivial
  | drop _ _ _ => trivial
  | recheck _ _ _ => trivial
  | destroy _ _ _ _ _ => trivial

/-- Memory safety of every interleaving in which no count is incremented at `INT_MAX`, also of
the runs that leak references. -/
theorem memory_safe {s : State} (h : Reachable (Guarded Fits Step) .init s) : MemorySafe s := by
  obtain ⟨chains, inv⟩ := inv_of_reachable h
  refine ⟨?_, ?_, ?_, ?_, ?_⟩
  · intro act f hfault
    obtain disabled | ⟨s', _, hstep, _⟩ := step_effect inv.toWellFormed act
    · simp [hfault] at disabled
    · simp [hfault] at hstep
  · intro act s' a hstep live gone t
    have zero : s'.outstanding a = 0 := by
      obtain disabled | ⟨s₁, _, run, effect, _⟩ := step_effect inv.toWellFormed act
      · rw [Step, disabled] at hstep
        cases hstep
      · rw [Step, run] at hstep
        cases hstep
        exact (effect.on_object inv (effect.fits_of_gone live gone) a).unreferenced inv gone
    rw [State.outstanding] at zero
    constructor
    · intro hmem
      have := refsTo_pos_iff.mpr ⟨t, hmem⟩
      omega
    · intro hmem
      have := refsTo_pos_iff.mpr ⟨t, hmem⟩
      omega
  · intro t a hmem
    obtain ⟨fp, hfp⟩ := inv.live hmem
    simp [hfp]
  · intro i
    refine ⟨chains i, inv.repr.chain i, fun a ha => ?_⟩
    obtain ⟨fp, hfp, _⟩ := (inv.repr.mem i a).mp ha
    simp [hfp]
  · intro t a hmem
    obtain ⟨fp, hfp⟩ := inv.live (.inr hmem)
    exact ⟨fp, _, hfp, inv.repr.chain _, inv.repr.mem_hash hfp⟩

/-- A lookup races with a pending release of the same object. -/
theorem memory_safe_race :
    ∃ s, Reachable (Guarded Fits Step) .init s ∧ s.pending = [(1, 0)] ∧ s.refs = [(2, 0)] ∧
      MemorySafe s := by
  have run : ∃ s, Steps (Guarded Fits Step) .init [.alloc 1 0 7, .releaseFirst 1 0, .find 2 7] s ∧
      s.pending = [(1, 0)] ∧ s.refs = [(2, 0)] := by
    refine ⟨_, .cons ⟨trivial, rfl⟩ (.cons ⟨trivial, rfl⟩ (.single ⟨?_, rfl⟩)), rfl, rfl⟩
    intro a found fp live
    cases found
    cases live
    decide
  obtain ⟨s, steps, pending, refs⟩ := run
  exact ⟨s, ⟨_, steps⟩, pending, refs, memory_safe ⟨_, steps⟩⟩

/-- A thread with a reference takes `n` more. -/
theorem hold_steps {s : State} {t : Tid} {a : Addr} {fp : Foo} (live : s.table.heap a = some fp)
    (whole : asInt fp.fCount = fp.fCount) (held : (t, a) ∈ s.refs) (quiet : s.pending = [])
    (n : Nat) :
    ∃ s', Steps Step s (List.replicate n (.hold t a)) s' ∧
      s'.table.heap a = some { fp with fCount := asInt (fp.fCount + n) } ∧
      s'.table.fh = s.table.fh ∧ s'.refs = List.replicate n (t, a) ++ s.refs ∧
      s'.pending = [] := by
  induction n with
  | zero =>
      refine ⟨s, .nil s, ?_, rfl, rfl, quiet⟩
      rw [live, Int.natCast_zero, Int.add_zero, whole]
  | succ n ih =>
      obtain ⟨u, steps, object, fh, refs, quiet'⟩ := ih
      have enabled : u.Idle t ∧ (t, a) ∈ u.refs := by
        refine ⟨fun p mem => ?_, refs ▸ List.mem_append_right _ held⟩
        rw [quiet'] at mem
        cases mem
      have next : Step u (.hold t a)
          { u with
            table := u.table.store a { fp with fCount := asInt (asInt (fp.fCount + n) + 1) }
            refs := (t, a) :: u.refs } := by
        simp only [Step, State.step, State.fooHold, if_pos enabled, incCount_of_heap object]
        rfl
      have steps' := steps.append (.single next)
      rw [← List.replicate_succ'] at steps'
      refine ⟨_, steps', ?_, fh, congrArg ((t, a) :: ·) refs, quiet'⟩
      rw [asInt_add, Int.add_assoc, ← Int.natCast_succ]
      simp [Table.store]

/-- Thread 2 takes so many references that the count is one again. The release by thread 1 then
frees the object. -/
theorem memory_safe_overflow :
    ∃ s, Steps Step .init ([.alloc 1 0 7, .find 2 7] ++
        List.replicate 4294967295 (.hold 2 0) ++ [.releaseFirst 1 0, .releaseSecond 1 0]) s ∧
      (2, 0) ∈ s.refs ∧ s.table.heap 0 = none ∧ ¬ MemorySafe s := by
  have shared : ∃ s, Steps Step .init [.alloc 1 0 7, .find 2 7] s ∧
      s.table.heap 0 = some ⟨2, 7, none⟩ ∧ s.table.fh (hash 7) = some 0 ∧
      s.refs = [(2, 0), (1, 0)] ∧ s.pending = [] :=
    ⟨_, Steps.of_foldlM_except rfl, rfl, rfl, rfl, rfl⟩
  obtain ⟨s, steps, object, bucket, refs, quiet⟩ := shared
  have two : (2, 0) ∈ s.refs := refs ▸ List.mem_cons_self
  obtain ⟨u, held, object', fh, refs', quiet'⟩ := hold_steps object rfl two quiet 4294967295
  have one : asInt (2 + (4294967295 : Nat)) = 1 := rfl
  rw [one] at object'
  have enabled : u.Idle 1 ∧ (1, 0) ∈ u.refs := by
    refine ⟨fun p mem => ?_, ?_⟩
    · rw [quiet'] at mem
      cases mem
    · rw [refs', refs]
      exact List.mem_append_right _ (.tail _ (.head _))
  have first : Step u (.releaseFirst 1 0)
      { u with refs := u.refs.erase (1, 0), pending := (1, 0) :: u.pending } := by
    simp only [Step, State.step, State.fooReleaseFirst, if_pos enabled, read_of_heap object']
    rfl
  have unlinked : u.table.unlink 0 =
      .ok { u.table with fh := Function.update u.table.fh (hash 7) none } := by
    simp only [Table.unlink, read_of_heap object', Fallible.ok_bind, fh, bucket, if_true]
    rfl
  have second : Step { u with refs := u.refs.erase (1, 0), pending := (1, 0) :: u.pending }
      (.releaseSecond 1 0)
      { u with
        table := { u.table with fh := Function.update u.table.fh (hash 7) none }.free 0
        refs := u.refs.erase (1, 0)
        pending := ((1, 0) :: u.pending).erase (1, 0) } := by
    simp only [Step, State.step, State.fooReleaseSecond, read_of_heap object', unlinked]
    rfl
  have left : (2, 0) ∈ u.refs.erase (1, 0) := by
    refine (List.mem_erase_of_ne (by decide)).mpr ?_
    rw [refs']
    exact List.mem_append_right _ two
  have gone : ({ u.table with fh := Function.update u.table.fh (hash 7) none }.free 0).heap 0 =
      none := by
    simp [Table.free]
  refine ⟨_, (steps.append held).append (.cons first (.single second)), left, gone, ?_⟩
  intro safe
  exact safe.referenced 2 0 (.inl left) gone

end UnixProgramming.FooTable
