import Mathlib.Logic.Function.Basic
import UnixProgramming.Unp.ReadLog
import UnixProgramming.Unp.ReadersAgree

/-!
# `readline_v3` on several descriptors

The static buffer of `my_read` belongs to no descriptor. A call delivers what is
buffered, whichever descriptor it was read from. Where calls change to another
descriptor only with an empty buffer, each descriptor has its own lines.
-/

namespace UnixProgramming.Unp

open CMemory Descriptor Fallible

/-- Calls of `readline_v3`, each on its own descriptor, with the calls of `my_read` in them. -/
def runInterleaved (fds : Int → Script) (st : ReadState) :
    List (Int × Call) → Except Fault (List (Int × List MyReadCall))
  | [] => .ok []
  | (d, call) :: calls => do
      let (line, st, log) ← readlineV3Logged (call.maxlen - 1) 1 0 call.vptr st (fds d)
      let results ← runInterleaved (Function.update fds d line.fd) st calls
      return (d, log) :: results

/-- What `my_read` delivers to the calls for `a`. -/
def deliveredTo (a : Int) (results : List (Int × List MyReadCall)) : List UInt8 :=
  results.flatMap fun result => if result.1 = a then deliveredIn result.2 else []

/-- A call for another descriptor than `last`, the one before it, finds an empty buffer. -/
def SwitchesEmpty (last : Option Int) (fds : Int → Script) (st : ReadState) :
    List (Int × Call) → Prop
  | [] => True
  | (d, call) :: calls => (st.readCnt ≠ 0 → last = some d) ∧
      match readlineV3Logged (call.maxlen - 1) 1 0 call.vptr st (fds d) with
      | .error _ => True
      | .ok (line, st, _) => SwitchesEmpty (some d) (Function.update fds d line.fd) st calls

/-- The lines of `a` that the calls ask for. -/
def linesTo (a : Int) : List (Int × Call) → List Item → List UInt8
  | [], _ => []
  | (d, call) :: calls, items =>
      if d = a then lineOf (call.maxlen - 1) items ++
        linesTo a calls (behindLine (call.maxlen - 1) items)
      else linesTo a calls items

theorem linesTo_prefix (a : Int) (calls : List (Int × Call)) (items : List Item) :
    linesTo a calls items <+: items.flatMap Item.bytes := by
  induction calls generalizing items with
  | nil => exact List.nil_prefix
  | cons next calls ih =>
      obtain ⟨d, call⟩ := next
      rw [linesTo]
      split
      · rw [← lineOf_append_behindLine (call.maxlen - 1) items]
        exact (List.prefix_append_right_inj _).mpr (ih _)
      · exact ih items

/-- The items that a call for `d` takes next. -/
def view (last : Option Int) (fds : Int → Script) (st : ReadState) (d : Int) : List Item :=
  if last = some d then pending (fds d) st else itemsOf (fds d)

theorem view_eq_pending {last : Option Int} {fds : Int → Script} {st : ReadState} {d : Int}
    (empty : st.readCnt ≠ 0 → last = some d) : view last fds st d = pending (fds d) st := by
  by_cases own : last = some d
  · exact if_pos own
  · have spent : st.readCnt = 0 := by
      by_contra some
      exact own (empty some)
    rw [view, if_neg own, pending_of_readCnt_eq_zero spent]

/-- A call for `d` takes a line of `d` and leaves the other descriptors as they are. -/
theorem view_update {last : Option Int} {fds : Int → Script} {st st' : ReadState} {d : Int}
    {left : Nat} {line : Line} {log : List MyReadCall}
    (empty : st.readCnt ≠ 0 → last = some d) (spec : LineSpec left (fds d) st line st' log)
    (e : Int) : view (some d) (Function.update fds d line.fd) st' e =
      if d = e then behindLine left (view last fds st e) else view last fds st e := by
  by_cases same : d = e
  · subst same
    rw [if_pos rfl, view_eq_pending empty, ← spec.behind, view, if_pos rfl,
      Function.update_self]
  · have other : (some d : Option Int) ≠ some e := fun h => same (Option.some.inj h)
    rw [if_neg same, view, if_neg other, Function.update_of_ne (Ne.symm same)]
    by_cases own : last = some e
    · -- the buffer is empty, because the call is not for its descriptor
      have spent : st.readCnt = 0 := by
        by_contra some
        exact other ((empty some).symm.trans own)
      rw [view, if_pos own, pending_of_readCnt_eq_zero spent]
    · rw [view, if_neg own]

theorem runInterleaved_spec {last : Option Int} {fds : Int → Script} {st : ReadState}
    {calls : List (Int × Call)} (room : ∀ call ∈ calls, call.2.vptr ≠ []) (valid : st.Valid)
    (free : ∀ d code, .error code ∉ view last fds st d)
    (empty : SwitchesEmpty last fds st calls) (a : Int) :
    ∃ results, runInterleaved fds st calls = .ok results ∧
      deliveredTo a results = linesTo a calls (view last fds st a) := by
  induction calls generalizing last fds st with
  | nil => exact ⟨[], rfl, rfl⟩
  | cons next calls ih =>
      obtain ⟨d, call⟩ := next
      obtain ⟨here, later⟩ := List.forall_mem_cons.mp room
      obtain ⟨empty, empty'⟩ := empty
      have own : view last fds st d = pending (fds d) st := view_eq_pending empty
      have whole : ¬ lineFails (call.maxlen - 1) (pending (fds d) st) := by
        intro fails
        obtain ⟨code, mem⟩ := lineFails_mem fails
        exact free d code (own ▸ mem)
      obtain ⟨line, st', log, run, spec⟩ := readlineV3Logged_spec _ 1 0 here valid whole
      rw [run] at empty'
      have views := view_update empty spec
      have free' : ∀ e code, .error code ∉ view (some d) (Function.update fds d line.fd) st' e := by
        intro e code mem
        rw [views] at mem
        split at mem
        · exact free e code ((behindLine_suffix _ _).mem mem)
        · exact free e code mem
      obtain ⟨results, run', delivered⟩ := ih later spec.valid free' empty'
      refine ⟨(d, log) :: results, by simp [runInterleaved, run, run'], ?_⟩
      rw [deliveredTo] at delivered
      rw [deliveredTo, List.flatMap_cons, delivered, views, linesTo]
      split
      · rename_i same
        subst same
        rw [own, spec.delivered]
      · rfl

/-- Where calls change descriptors with an empty buffer only, the bytes delivered for `a` are
a prefix of its stream, and they are the same whatever the other streams are. -/
theorem interleaved_apart {fds fds' : Int → Script} {calls : List (Int × Call)} {a : Int}
    (room : ∀ call ∈ calls, call.2.vptr ≠ []) (free : ∀ d, FailureFree (fds d))
    (free' : ∀ d, FailureFree (fds' d)) (same : fds a = fds' a)
    (empty : SwitchesEmpty none fds .init calls) (empty' : SwitchesEmpty none fds' .init calls) :
    ∃ results results', runInterleaved fds .init calls = .ok results ∧
      runInterleaved fds' .init calls = .ok results' ∧
      deliveredTo a results = deliveredTo a results' ∧
      deliveredTo a results <+: bytesOf (fds a) := by
  have start : ∀ d code, .error code ∉ view none fds .init d := fun d => (free d).items
  have start' : ∀ d code, .error code ∉ view none fds' .init d := fun d => (free' d).items
  obtain ⟨results, run, delivered⟩ := runInterleaved_spec room ReadState.valid_init start empty a
  obtain ⟨results', run', delivered'⟩ :=
    runInterleaved_spec room ReadState.valid_init start' empty' a
  have views : view none fds .init a = view none fds' .init a := by simp [view, same]
  refine ⟨results, results', run, run', by rw [delivered, delivered', views], ?_⟩
  rw [delivered, bytesOf_eq_flatMap]
  exact linesTo_prefix a calls _

/-- Descriptor 4 has the given script, and on descriptor 3 there is the line `q`. -/
def besideQ (b : Script) : Int → Script := fun d =>
  if d = 4 then b else if d = 3 then [.data [113, 10]] else []

theorem failureFree_besideQ {b : Script} (free : FailureFree b) (d : Int) :
    FailureFree (besideQ b d) := by
  unfold besideQ
  split
  · exact free
  · split <;> simp [FailureFree]

/-- Each descriptor is read line by line, and its reads do not go beyond a line. -/
theorem interleaved_apart_lines :
    ∃ results results',
      runInterleaved (besideQ [.data [120, 10]]) .init
        [(4, ⟨4, [0, 0, 0, 0]⟩), (3, ⟨4, [0, 0, 0, 0]⟩)] = .ok results ∧
      runInterleaved (besideQ [.data [121], .data [10]]) .init
        [(4, ⟨4, [0, 0, 0, 0]⟩), (3, ⟨4, [0, 0, 0, 0]⟩)] = .ok results' ∧
      deliveredTo 3 results = deliveredTo 3 results' ∧
      deliveredTo 3 results <+: bytesOf (besideQ [.data [120, 10]] 3) :=
  interleaved_apart (by decide) (failureFree_besideQ (by simp [FailureFree]))
    (failureFree_besideQ (by simp [FailureFree])) rfl
    ⟨fun h => absurd rfl h, fun h => absurd rfl h, trivial⟩
    ⟨fun h => absurd rfl h, fun h => absurd rfl h, trivial⟩

/-- The second line of descriptor 4 is still buffered when a line of descriptor 3 is asked
for, and it is delivered there. -/
theorem lines_leak :
    (∀ d, FailureFree (besideQ [.data [120, 10, 121, 10]] d)) ∧
    (∀ d, FailureFree (besideQ [.data [120, 10, 122, 10]] d)) ∧
    besideQ [.data [120, 10, 121, 10]] 3 = besideQ [.data [120, 10, 122, 10]] 3 ∧
    ∃ results results',
      runInterleaved (besideQ [.data [120, 10, 121, 10]]) .init
        [(4, ⟨4, [0, 0, 0, 0]⟩), (3, ⟨4, [0, 0, 0, 0]⟩)] = .ok results ∧
      runInterleaved (besideQ [.data [120, 10, 122, 10]]) .init
        [(4, ⟨4, [0, 0, 0, 0]⟩), (3, ⟨4, [0, 0, 0, 0]⟩)] = .ok results' ∧
      deliveredTo 3 results = [121, 10] ∧ deliveredTo 3 results' = [122, 10] ∧
      ¬ deliveredTo 3 results <+: bytesOf (besideQ [.data [120, 10, 121, 10]] 3) :=
  ⟨failureFree_besideQ (by simp [FailureFree]), failureFree_besideQ (by simp [FailureFree]), rfl,
    _, _, rfl, rfl, rfl, rfl, by decide⟩

end UnixProgramming.Unp
