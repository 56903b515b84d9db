import UnixProgramming.Ttyname.Search
import Mathlib.Data.List.Perm.Subperm

/-!
# The list of `struct devdir`

The list is given by the names on it. `add` puts a name to its end, also while `ttyname_m` stands
at one of its cells, and `cleanup` frees each cell once.
-/

namespace UnixProgramming.Ttyname

open CMemory Fallible Linked

/-- The list has these names, in the cells at these addresses. -/
structure Represents (s : Search) (addrs : List Addr) (dirs : List Block) : Prop where
  chain : Chain s.links s.head addrs
  names : addrs.map (fun a => (s.heap a).map Devdir.dName) = dirs.map some
  tail : s.tail = addrs.getLast?
  bound : ∀ a ∈ addrs, a < s.brk

theorem links_update (s : Search) (a : Addr) (v : Option Devdir) :
    (fun b => (Function.update s.heap a v b).map Devdir.dNext) =
      Function.update s.links a (v.map Devdir.dNext) := by
  funext b
  by_cases same : b = a
  · subst same
    simp
  · simp [same, Search.links]

theorem links_store (s : Search) (a : Addr) (ddp : Devdir) :
    (s.store a ddp).links = Function.update s.links a (some ddp.dNext) :=
  links_update s a (some ddp)

theorem links_alloc (s : Search) (dirname : Block) :
    (s.alloc dirname).links = Function.update s.links s.brk (some none) :=
  links_update s s.brk (some ⟨none, dirname⟩)

theorem links_free (s : Search) (a : Addr) :
    (s.free a).links = Function.update s.links a none :=
  links_update s a none

theorem read_of_heap {s : Search} {a : Addr} {ddp : Devdir} (cell : s.heap a = some ddp) :
    s.read a = .ok ddp := by
  rw [Search.read, cell]

/-- A cell with a successor field is there. -/
theorem heap_of_links {s : Search} {a : Addr} {q : Option Addr} (link : s.links a = some q) :
    ∃ ddp, s.heap a = some ddp ∧ ddp.dNext = q :=
  Option.map_eq_some_iff.mp link

namespace Represents

variable {s : Search} {addrs : List Addr} {dirs : List Block} {dirname : Block}

theorem empty (s : Search) (head : s.head = none) (tail : s.tail = none) : Represents s [] [] :=
  ⟨head, rfl, tail, by simp⟩

theorem length_eq (r : Represents s addrs dirs) : addrs.length = dirs.length := by
  have := congrArg List.length r.names
  simpa using this

/-- The buffer and the trace do not matter. -/
theorem congr {s' : Search} (r : Represents s addrs dirs) (heap : s'.heap = s.heap)
    (head : s'.head = s.head) (tail : s'.tail = s.tail) (brk : s'.brk = s.brk) :
    Represents s' addrs dirs := by
  have links : s'.links = s.links := by
    funext a
    rw [Search.links, Search.links, heap]
  refine ⟨?_, ?_, ?_, ?_⟩
  · rw [links, head]
    exact r.chain
  · rw [heap]
    exact r.names
  · rw [tail]
    exact r.tail
  · rw [brk]
    exact r.bound

/-- `append` into the empty list. -/
theorem append_nil (r : Represents s [] []) (dirname : Block) :
    ∃ s', s.append dirname = .ok s' ∧ Represents s' [s.brk] [dirname] ∧
      s'.pathname = s.pathname ∧ s'.trace = s.trace := by
  have last : s.tail = none := r.tail
  have step : s.append dirname =
      .ok { s.alloc dirname with head := some s.brk, tail := some s.brk } := by
    rw [Search.append]
    dsimp only
    rw [show (s.alloc dirname).tail = none from last]
    rfl
  have cell : (s.alloc dirname).heap s.brk = some ⟨none, dirname⟩ := Function.update_self _ _ _
  have link : (s.alloc dirname).links s.brk = some none := by
    rw [links_alloc, Function.update_self]
  refine ⟨_, step, ⟨⟨rfl, none, link, rfl⟩, ?_, rfl, ?_⟩, rfl, rfl⟩
  · rw [List.map_singleton, cell]
    rfl
  · intro a mem
    obtain rfl := List.mem_singleton.mp mem
    exact Nat.lt_succ_self _

/-- Linking a new cell behind the last one keeps the names in front of it. -/
theorem names_append {b : Addr} {cell : Devdir} {dirname : Block}
    (r : Represents s (addrs ++ [b]) dirs) (fresh : s.brk ∉ addrs ++ [b])
    (here : s.heap b = some cell) :
    (addrs ++ [b] ++ [s.brk]).map (fun a => (((s.alloc dirname).store b
      { cell with dNext := some s.brk }).heap a).map Devdir.dName) =
        (dirs ++ [dirname]).map some := by
  have older : b ≠ s.brk := by
    rintro rfl
    exact fresh (by simp)
  have same : ∀ a ∈ addrs ++ [b], (((s.alloc dirname).store b
      { cell with dNext := some s.brk }).heap a).map Devdir.dName =
        (s.heap a).map Devdir.dName := by
    intro a mem
    have old : a ≠ s.brk := by
      rintro rfl
      exact fresh mem
    by_cases atLast : a = b
    · subst atLast
      rw [Search.heap_store, Function.update_self, here]
      rfl
    · rw [Search.heap_store, Function.update_of_ne atLast, Search.heap_alloc,
        Function.update_of_ne old]
  have new : ((s.alloc dirname).store b { cell with dNext := some s.brk }).heap s.brk =
      some ⟨none, dirname⟩ := by
    rw [Search.heap_store, Function.update_of_ne older.symm, Search.heap_alloc,
      Function.update_self]
  rw [List.map_append, List.map_congr_left same, r.names, List.map_singleton, new,
    List.map_append]
  rfl

/-- `append` behind a last cell. -/
theorem append_concat {b : Addr} (r : Represents s (addrs ++ [b]) dirs) (dirname : Block) :
    ∃ s', s.append dirname = .ok s' ∧ Represents s' (addrs ++ [b] ++ [s.brk]) (dirs ++ [dirname]) ∧
      s'.pathname = s.pathname ∧ s'.trace = s.trace := by
  have last : s.tail = some b := by rw [r.tail, List.getLast?_concat]
  have fresh : s.brk ∉ addrs ++ [b] := fun mem => lt_irrefl _ (r.bound _ mem)
  have older : b ≠ s.brk := by
    rintro rfl
    exact fresh (by simp)
  obtain ⟨q, link, rfl⟩ : ∃ q, s.links b = some q ∧ q = none := r.chain.suffix
  obtain ⟨cell, here, end_⟩ := heap_of_links link
  -- the new cell is set up before the last one is linked to it
  have placed : Chain (s.alloc dirname).links s.head (addrs ++ [b]) := by
    rw [links_alloc]
    exact r.chain.update_of_notMem fresh _
  have found : (s.alloc dirname).heap b = some cell := by
    rw [← here]
    exact Function.update_of_ne older _ _
  have step : s.append dirname = .ok { (s.alloc dirname).store b
      { cell with dNext := some s.brk } with tail := some s.brk } := by
    rw [Search.append]
    dsimp only
    rw [show (s.alloc dirname).tail = some b from last]
    dsimp only
    rw [read_of_heap found]
    rfl
  refine ⟨_, step, ⟨?_, ?_, ?_, ?_⟩, rfl, rfl⟩
  · have linked := placed.link fresh
      (by rw [links_alloc, Function.update_of_ne older, link])
      (by rw [links_alloc, Function.update_self])
    rw [List.append_assoc]
    rw [← links_store (s.alloc dirname) b { cell with dNext := some s.brk }] at linked
    exact linked
  · exact r.names_append fresh here
  · exact List.getLast?_concat.symm
  · intro a mem
    obtain old | new := List.mem_append.mp mem
    · exact (r.bound a old).trans (Nat.lt_succ_self _)
    · obtain rfl := List.mem_singleton.mp new
      exact Nat.lt_succ_self _

theorem append (r : Represents s addrs dirs) (dirname : Block) :
    ∃ s', s.append dirname = .ok s' ∧ Represents s' (addrs ++ [s.brk]) (dirs ++ [dirname]) ∧
      s'.pathname = s.pathname ∧ s'.trace = s.trace := by
  rcases List.eq_nil_or_concat addrs with rfl | ⟨front, b, rfl⟩
  · obtain rfl : dirs = [] := List.length_eq_zero_iff.mp r.length_eq.symm
    exact r.append_nil dirname
  · rw [List.concat_eq_append] at r ⊢
    exact r.append_concat dirname

/-- The cell of a name on the list. -/
theorem cell {front back : List Addr} {a : Addr} (r : Represents s (front ++ a :: back) dirs) :
    ∃ ddp, s.heap a = some ddp ∧ dirs[front.length]? = some ddp.dName ∧
      Chain s.links ddp.dNext back := by
  obtain ⟨q, link, rest⟩ := r.chain.suffix
  obtain ⟨ddp, cell, rfl⟩ := heap_of_links link
  refine ⟨ddp, cell, ?_, rest⟩
  have named := congrArg (·[front.length]?) r.names
  simpa [cell, List.getElem?_append_right] using named.symm

end Represents

/-- `cleanup` frees the cells of a chain. -/
theorem freeList_of_chain {s : Search} {p : Option Addr} {addrs : List Addr} {fuel : Nat}
    (chain : Chain s.links p addrs) (enough : addrs.length ≤ fuel) :
    ∃ s', freeList fuel p s = .ok s' ∧ s'.pathname = s.pathname ∧ s'.trace = s.trace := by
  induction addrs generalizing s p fuel with
  | nil =>
      obtain rfl := chain_nil.mp chain
      exact ⟨s, by rw [freeList]; rfl, rfl, rfl⟩
  | cons a addrs ih =>
      have once : a ∉ addrs := (List.nodup_cons.mp chain.nodup).1
      obtain ⟨rfl, q, link, rest⟩ := chain
      obtain ⟨cell, here, rfl⟩ := heap_of_links link
      cases fuel with
      | zero => simp at enough
      | succ fuel =>
          have rest' : Chain (s.free a).links cell.dNext addrs := by
            rw [links_free]
            exact rest.update_of_notMem once none
          obtain ⟨s', freed, pathname, trace⟩ := ih rest' (Nat.le_of_succ_le_succ enough)
          refine ⟨s', ?_, pathname, trace⟩
          rw [freeList, read_of_heap here, ok_bind, freed]

theorem freeList_trace {s s' : Search} {p : Option Addr} {fuel : Nat}
    (run : freeList fuel p s = .ok s') : s'.trace = s.trace := by
  induction fuel generalizing s p with
  | zero =>
      cases p with
      | none =>
          cases run
          rfl
      | some ddp => cases run
  | succ fuel ih =>
      cases p with
      | none =>
          cases run
          rfl
      | some ddp =>
          rw [freeList] at run
          obtain ⟨cell, -, run⟩ := bind_ok run
          have later := ih run
          exact later

theorem cleanup_trace {s s' : Search} (run : cleanup s = .ok s') : s'.trace = s.trace := by
  rw [cleanup] at run
  obtain ⟨s₁, freed, run⟩ := bind_ok run
  have same := freeList_trace freed
  cases run
  exact same

theorem cleanup_represents {s : Search} {addrs : List Addr} {dirs : List Block}
    (r : Represents s addrs dirs) :
    ∃ s', cleanup s = .ok s' ∧ s'.head = none ∧ s'.tail = none ∧ s'.pathname = s.pathname ∧
      s'.trace = s.trace := by
  have below : addrs.Subperm (List.range s.brk) :=
    r.chain.nodup.subperm fun a mem => List.mem_range.mpr (r.bound a mem)
  have enough : addrs.length ≤ s.brk := by simpa using below.length_le
  obtain ⟨s', freed, pathname, trace⟩ := freeList_of_chain r.chain enough
  exact ⟨{ s' with head := none, tail := none }, by rw [cleanup, freed]; rfl, rfl, rfl, pathname,
    trace⟩

end UnixProgramming.Ttyname
