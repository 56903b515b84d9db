import Mathlib.Data.List.Induction
import UnixProgramming.OpenServer.ClientTable

/-!
# The client table as a map from descriptors to users

The abstract view of the table is the list of connected clients. While fewer than
`NALLOC` of them are connected at every `client_add`, each call does to the table what
it does to the list. The first `client_add` beyond that writes behind the array, so the
two properties below hold of a sequence of calls exactly when it never comes to that.
-/

namespace UnixProgramming.OpenServer

/-- The clients that a list of entries holds. A free entry has descriptor `-1`. -/
def clientsOf (es : List Client) : List (Int × Nat) :=
  (es.filter (·.fd ≠ -1)).map fun e => (e.fd, e.uid)

def ClientTable.inUse (t : ClientTable) : List (Int × Nat) := clientsOf t.entries

@[simp] theorem entries_init : ClientTable.init.entries = [] := rfl

@[simp] theorem entries_full (es : List Client) : (full es).entries = es := rfl

theorem clientsOf_split (before after : List Client) (e : Client) :
    (clientsOf (before ++ e :: after)).Perm
      (if e.fd = -1 then clientsOf (before ++ after)
        else (e.fd, e.uid) :: clientsOf (before ++ after)) := by
  by_cases h : e.fd = -1
  · simp [clientsOf, h]
  · simp [clientsOf, h, List.perm_middle]

/-- Overwriting the entry `i` exchanges at most one client for another. -/
theorem clientsOf_set {es : List Client} {i : Nat} {e : Client} (he : es[i]? = some e)
    (e' : Client) :
    ∃ rest, (clientsOf es).Perm (if e.fd = -1 then rest else (e.fd, e.uid) :: rest) ∧
      (clientsOf (es.set i e')).Perm (if e'.fd = -1 then rest else (e'.fd, e'.uid) :: rest) := by
  obtain ⟨hi, rfl⟩ := List.getElem?_eq_some_iff.mp he
  refine ⟨clientsOf (es.take i ++ es.drop (i + 1)), ?_, ?_⟩
  · have split : es = es.take i ++ es[i] :: es.drop (i + 1) := by
      rw [← List.drop_eq_getElem_cons hi, List.take_append_drop]
    conv_lhs => rw [split]
    exact clientsOf_split _ _ _
  · rw [List.set_eq_take_append_cons_drop, if_pos hi]
    exact clientsOf_split _ _ _

/-- A client with descriptor `-1` leaves its entry free. -/
theorem clientsOf_add {es : List Client} {i : Nat} {e : Client} (he : es[i]? = some e)
    (free : e.fd = -1) (fd : Int) (uid : Nat) :
    (clientsOf (es.set i ⟨fd, uid⟩)).Perm
      (if fd = -1 then clientsOf es else (fd, uid) :: clientsOf es) := by
  obtain ⟨rest, before, after⟩ := clientsOf_set he ⟨fd, uid⟩
  rw [if_pos free] at before
  by_cases hfd : fd = -1
  · rw [if_pos hfd] at after ⊢
    exact after.trans before.symm
  · rw [if_neg hfd] at after ⊢
    exact after.trans (before.symm.cons _)

theorem clientsOf_del {es : List Client} {i : Nat} {e : Client} (he : es[i]? = some e)
    (used : e.fd ≠ -1) :
    (clientsOf es).Perm ((e.fd, e.uid) :: clientsOf (es.set i (freed e))) := by
  obtain ⟨rest, before, after⟩ := clientsOf_set he (freed e)
  rw [if_neg used] at before
  rw [if_pos (freed_fd e)] at after
  exact before.trans (after.symm.cons _)

/-- The entries are all in use exactly when the search for a free one fails. -/
theorem clientsOf_length_lt {es : List Client} :
    (clientsOf es).length < es.length ↔ ∃ i, es.findIdx? (·.fd = -1) = some i := by
  rw [← Option.isSome_iff_exists, List.findIdx?_isSome, List.any_eq_true, clientsOf,
    List.length_map, List.length_filter_lt_length_iff_exists]
  simp

/-- The states that the code leaves behind: nothing allocated, or `NALLOC` entries. -/
inductive Allocated : ClientTable → Prop
  | init : Allocated .init
  | full {es : List Client} (hlen : es.length = NALLOC) : Allocated (full es)

theorem Allocated.clientSize {t : ClientTable} (h : Allocated t) :
    t.clientSize = t.entries.length := by
  cases h with
  | init => rfl
  | full hlen => exact hlen.symm

/-- What `client_add` does: it stores the client in an entry that was free, or not yet
allocated, and leaves every other entry as it was. -/
structure Added (t : ClientTable) (fd : Int) (uid : Nat) (t' : ClientTable) (i : Nat) : Prop where
  free : ∀ e, t.entries[i]? = some e → e.fd = -1
  stored : t'.entries[i]? = some ⟨fd, uid⟩
  kept : ∀ j e, j ≠ i → t.entries[j]? = some e → t'.entries[j]? = some e

/-- What `client_del` does: it frees the entry of the descriptor and no other. -/
structure Deleted (t : ClientTable) (fd : Int) (t' : ClientTable) : Prop where
  size : t'.entries.length = t.entries.length
  released : ∀ (i : Nat) (e : Client), t.entries[i]? = some e → e.fd = fd →
    t'.entries[i]? = some (freed e)
  kept : ∀ (i : Nat) (e : Client), t.entries[i]? = some e → e.fd ≠ fd → t'.entries[i]? = some e

theorem exec_add {t : ClientTable} (h : Allocated t) (room : t.inUse.length < NALLOC)
    (fd : Int) (uid : Nat) (junk : Nat → Client) :
    ∃ t' i, exec t (.add fd uid junk) = .ok (t', some i) ∧ Allocated t' ∧
      Added t fd uid t' i ∧
      t'.inUse.Perm (if fd = -1 then t.inUse else (fd, uid) :: t.inUse) := by
  cases h with
  | init =>
      let es := (ClientTable.realloc [] NALLOC junk).map freed
      have hlen : es.length = NALLOC := by simp [es, ClientTable.realloc]
      have none_used : clientsOf es = [] := by simp [es, clientsOf, freed]
      have he : es[0]? = some (freed (junk 0)) := rfl
      refine ⟨full (es.set 0 ⟨fd, uid⟩), 0, ?_, .full (by simpa using hlen), ⟨?_, ?_, ?_⟩, ?_⟩
      · simp [exec, clientAdd_init, es]
      · simp
      · exact List.getElem?_set_self (by rw [hlen]; decide)
      · simp
      · have added := clientsOf_add he rfl fd uid
        rw [none_used] at added
        exact added
  | @full es hlen =>
      have hroom : (clientsOf es).length < es.length := by
        rw [hlen]
        exact room
      obtain ⟨i, hi⟩ := clientsOf_length_lt.mp hroom
      obtain ⟨hlt, hfree, _⟩ := List.findIdx?_eq_some_iff_getElem.mp hi
      have he : es[i]? = some es[i] := List.getElem?_eq_getElem hlt
      have hfree : es[i].fd = -1 := by simpa using hfree
      refine ⟨full (es.set i ⟨fd, uid⟩), i, ?_, .full (by simpa using hlen), ⟨?_, ?_, ?_⟩, ?_⟩
      · simp [exec, clientAdd_found hlen hi]
      · intro e hget
        rw [entries_full, he] at hget
        cases hget
        exact hfree
      · simp [hlt]
      · intro j e hne hget
        simpa [List.getElem?_set_ne (Ne.symm hne)] using hget
      · exact clientsOf_add he hfree fd uid

theorem exec_add_full {t : ClientTable} (h : Allocated t) (noRoom : ¬ t.inUse.length < NALLOC)
    (fd : Int) (uid : Nat) (junk : Nat → Client) :
    exec t (.add fd uid junk) = .error (.outOfBounds NALLOC) := by
  cases h with
  | init => exact absurd (by decide) noRoom
  | @full es hlen =>
      have hnone : es.findIdx? (·.fd = -1) = none := by
        by_contra hsome
        have hroom := clientsOf_length_lt.mpr (Option.ne_none_iff_exists'.mp hsome)
        rw [hlen] at hroom
        exact noRoom hroom
      simp [exec, clientAdd_full hlen hnone]

theorem mem_clientsOf {es : List Client} {fd : Int} {uid : Nat} :
    (fd, uid) ∈ clientsOf es ↔ ⟨fd, uid⟩ ∈ es ∧ fd ≠ -1 := by
  constructor
  · intro h
    obtain ⟨e, he, heq⟩ := List.mem_map.mp h
    obtain ⟨rfl, rfl⟩ := Prod.mk.inj heq
    exact ⟨(List.mem_filter.mp he).1, by simpa using (List.mem_filter.mp he).2⟩
  · rintro ⟨he, used⟩
    exact List.mem_map.mpr ⟨⟨fd, uid⟩, List.mem_filter.mpr ⟨he, by simpa using used⟩, rfl⟩

/-- `client_del` frees the first entry with the descriptor. Without such an entry, and for
the descriptor `-1` of the free ones, it changes nothing. -/
theorem exec_del {t : ClientTable} (h : Allocated t) (fd : Int) :
    ∃ t', exec t (.del fd) = .ok (t', none) ∧ Allocated t' ∧
      ((t' = t ∧ ∀ uid, (fd, uid) ∉ t.inUse) ∨
        ∃ i e, t.entries[i]? = some e ∧ e.fd = fd ∧ fd ≠ -1 ∧
          t'.entries = t.entries.set i (freed e)) := by
  cases h with
  | init => exact ⟨.init, rfl, .init, .inl ⟨rfl, by simp [ClientTable.inUse, clientsOf]⟩⟩
  | @full es hlen =>
      cases hi : es.findIdx? (·.fd = fd) with
      | none =>
          refine ⟨full es, ?_, .full hlen, .inl ⟨rfl, fun uid hmem => ?_⟩⟩
          · simp [exec, clientDel_unknown hlen hi]
          · have unknown := List.findIdx?_eq_none_iff.mp hi _ (mem_clientsOf.mp hmem).1
            simp at unknown
      | some i =>
          obtain ⟨hlt, hfd, _⟩ := List.findIdx?_eq_some_iff_getElem.mp hi
          have he : es[i]? = some es[i] := List.getElem?_eq_getElem hlt
          have hfd : es[i].fd = fd := by simpa using hfd
          have hdel : exec (full es) (.del fd) = .ok (full (es.set i (freed es[i])), none) := by
            simp [exec, clientDel_found hlen hi he]
          by_cases free : fd = -1
          · -- the search stopped at a free entry
            have hfreed : freed es[i] = es[i] := by simp [freed, ← free, ← hfd]
            rw [hfreed, List.set_getElem_self] at hdel
            exact ⟨full es, hdel, .full hlen, .inl ⟨rfl, fun uid hmem =>
              (mem_clientsOf.mp hmem).2 free⟩⟩
          · exact ⟨_, hdel, .full (by simpa using hlen), .inr ⟨i, es[i], he, hfd, free, rfl⟩⟩

/-- Distinct connected descriptors sit in distinct entries. -/
theorem entry_unique {es : List Client} (distinct : ((clientsOf es).map Prod.fst).Nodup)
    {i j : Nat} {e e' : Client} (hi : es[i]? = some e) (hj : es[j]? = some e')
    (same : e.fd = e'.fd) (used : e.fd ≠ -1) : i = j := by
  rw [clientsOf, List.map_map, List.Nodup, List.pairwise_map, List.pairwise_filter,
    List.pairwise_iff_getElem] at distinct
  obtain ⟨hlti, rfl⟩ := List.getElem?_eq_some_iff.mp hi
  obtain ⟨hltj, rfl⟩ := List.getElem?_eq_some_iff.mp hj
  have used' : es[j].fd ≠ -1 := same ▸ used
  obtain hlt | heq | hgt := Nat.lt_trichotomy i j
  · exact absurd same (distinct i j hlti hltj hlt (by simpa using used) (by simpa using used'))
  · exact heq
  · exact absurd same.symm
      (distinct j i hltj hlti hgt (by simpa using used') (by simpa using used))

/-- With distinct descriptors, `client_del` acts on the one entry of its descriptor and
on the list of clients as removal does. -/
theorem exec_del_distinct {t : ClientTable} (h : Allocated t) (fd : Int)
    (distinct : (t.inUse.map Prod.fst).Nodup) :
    ∃ t', exec t (.del fd) = .ok (t', none) ∧ Allocated t' ∧ Deleted t fd t' ∧
      t'.inUse.Perm (t.inUse.filter (·.1 ≠ fd)) ∧
      ((∀ uid, (fd, uid) ∉ t.inUse) → t' = t) := by
  obtain ⟨t', hexec, alloc, ⟨rfl, unknown⟩ | ⟨i, e, he, rfl, used, hset⟩⟩ := exec_del h fd
  · refine ⟨t', hexec, alloc, ⟨rfl, ?_, fun _ _ he _ => he⟩, ?_, fun _ => rfl⟩
    · rintro i ⟨fd', uid⟩ he rfl
      by_cases free : fd' = -1
      · simpa [freed, ← free] using he
      · exact absurd (mem_clientsOf.mpr ⟨List.mem_of_getElem? he, free⟩) (unknown uid)
    · rw [List.filter_eq_self.mpr]
      rintro ⟨fd', uid⟩ hmem
      simpa using fun (same : fd' = fd) => unknown uid (same ▸ hmem)
  · have hi := (List.getElem?_eq_some_iff.mp he).1
    have removed := clientsOf_del he used
    have inUse' : t'.inUse = clientsOf (t.entries.set i (freed e)) := congrArg clientsOf hset
    refine ⟨t', hexec, alloc, ⟨by simp [hset], ?_, ?_⟩, ?_, ?_⟩
    · intro j e' he' hfd
      obtain rfl : j = i := entry_unique distinct he' he hfd (hfd ▸ used)
      rw [he] at he'
      cases he'
      rw [hset]
      exact List.getElem?_set_self hi
    · intro j e' he' hfd
      have hne : i ≠ j := by
        rintro rfl
        rw [he] at he'
        cases he'
        exact hfd rfl
      rw [hset, List.getElem?_set_ne hne, he']
    · have perm := removed.map Prod.fst
      have nodup := perm.nodup_iff.mp distinct
      have others : ∀ p ∈ clientsOf (t.entries.set i (freed e)), p.1 ≠ e.fd := by
        rintro p hp hfd
        exact (List.nodup_cons.mp nodup).1 (List.mem_map.mpr ⟨p, hp, hfd⟩)
      have unchanged : (clientsOf (t.entries.set i (freed e))).filter (·.1 ≠ e.fd) =
          clientsOf (t.entries.set i (freed e)) :=
        List.filter_eq_self.mpr (by simpa using others)
      have filtered := removed.filter (·.1 ≠ e.fd)
      rw [List.filter_cons_of_neg (by simp), unchanged] at filtered
      rw [inUse']
      exact filtered.symm
    · intro absent
      exact absurd (removed.mem_iff.mpr List.mem_cons_self) (absent e.uid)

theorem runCalls_concat {pre : List Call} {t : ClientTable} (h : runCalls pre = .ok t)
    (c : Call) : runCalls (pre ++ [c]) = Prod.fst <$> exec t c := by
  unfold runCalls at h ⊢
  rw [List.foldlM_append, h]
  cases hexec : exec t c <;> simp [hexec]

/-- A sequence of calls returns only if all but the last of them do. -/
theorem runCalls_concat_inv {pre : List Call} {c : Call} {t' : ClientTable}
    (h : runCalls (pre ++ [c]) = .ok t') :
    ∃ t, runCalls pre = .ok t ∧ ∃ r, exec t c = .ok (t', r) := by
  cases hpre : runCalls pre with
  | error f =>
      unfold runCalls at hpre h
      rw [List.foldlM_append, hpre] at h
      cases h
  | ok t =>
      rw [runCalls_concat hpre] at h
      cases hexec : exec t c with
      | error f =>
          rw [hexec] at h
          cases h
      | ok result =>
          rw [hexec] at h
          cases h
          exact ⟨t, rfl, result.2, hexec⟩

theorem runCalls_concat_ok {pre : List Call} {c : Call} {t t' : ClientTable} {r : Option Nat}
    (h : runCalls pre = .ok t) (hexec : exec t c = .ok (t', r)) :
    runCalls (pre ++ [c]) = .ok t' := by
  rw [runCalls_concat h, hexec]
  rfl

/-- The calls up to any point run within the allocated entries, and there `client_size`
is the number of entries. -/
def CapacityExact (calls : List Call) : Prop :=
  ∀ pre, pre <+: calls → ∃ t, runCalls pre = .ok t ∧ t.clientSize = t.entries.length

/-- The descriptors that are added and not deleted since, after one more call. An entry
that is given the descriptor `-1` stays free. -/
def trackFds (fds : List Int) : Call → List Int
  | .add fd _ _ => if fd = -1 then fds else fd :: fds
  | .del fd => fds.erase fd

def addedFds (calls : List Call) : List Int := calls.foldl trackFds []

theorem addedFds_concat (pre : List Call) (c : Call) :
    addedFds (pre ++ [c]) = trackFds (addedFds pre) c := by
  simp [addedFds, List.foldl_append]

theorem trackFds_perm {fds fds' : List Int} (h : fds.Perm fds') (c : Call) :
    (trackFds fds c).Perm (trackFds fds' c) := by
  cases c with
  | add fd uid junk =>
      by_cases hfd : fd = -1
      · simpa [trackFds, hfd] using h
      · simpa [trackFds, hfd] using h
  | del fd => exact h.erase fd

/-- One call that returns does to the descriptors of the entries in use what it does to
the list of descriptors. -/
theorem Allocated.call {t t' : ClientTable} {c : Call} {r : Option Nat} (h : Allocated t)
    (hexec : exec t c = .ok (t', r)) :
    Allocated t' ∧ (t'.inUse.map Prod.fst).Perm (trackFds (t.inUse.map Prod.fst) c) := by
  cases c with
  | add fd uid junk =>
      by_cases room : t.inUse.length < NALLOC
      · obtain ⟨t₁, i, hadd, alloc, -, perm⟩ := exec_add h room fd uid junk
        rw [hadd] at hexec
        cases hexec
        refine ⟨alloc, (perm.map Prod.fst).trans (.of_eq ?_)⟩
        by_cases hfd : fd = -1 <;> simp [trackFds, hfd]
      · rw [exec_add_full h room] at hexec
        cases hexec
  | del fd =>
      obtain ⟨t₁, hdel, alloc, ⟨rfl, unknown⟩ | ⟨i, e, he, rfl, used, hset⟩⟩ := exec_del h fd
      · rw [hdel] at hexec
        cases hexec
        have notMem : fd ∉ t'.inUse.map Prod.fst := by simpa using unknown
        exact ⟨alloc, .of_eq (List.erase_of_not_mem notMem).symm⟩
      · rw [hdel] at hexec
        cases hexec
        have inUse' : t'.inUse = clientsOf (t.entries.set i (freed e)) := congrArg clientsOf hset
        have erased := ((clientsOf_del he used).map Prod.fst).erase e.fd
        rw [List.map_cons, List.erase_cons_head, ← inUse'] at erased
        exact ⟨alloc, erased.symm⟩

/-- As long as the calls succeed, the table is one that the code can leave behind, and it
holds the descriptors that were added and not deleted since. -/
theorem allocated_of_run {calls : List Call} {t : ClientTable} (hrun : runCalls calls = .ok t) :
    Allocated t ∧ (t.inUse.map Prod.fst).Perm (addedFds calls) := by
  induction calls using List.reverseRecOn generalizing t with
  | nil =>
      cases hrun
      exact ⟨.init, .refl _⟩
  | append_singleton pre c ih =>
      obtain ⟨t₀, hrun₀, r, hexec⟩ := runCalls_concat_inv hrun
      obtain ⟨alloc, perm⟩ := ih hrun₀
      obtain ⟨alloc', perm'⟩ := alloc.call hexec
      rw [addedFds_concat]
      exact ⟨alloc', perm'.trans (trackFds_perm perm c)⟩

theorem inUse_length_of_run {calls : List Call} {t : ClientTable} (hrun : runCalls calls = .ok t) :
    t.inUse.length = (addedFds calls).length := by
  simpa using (allocated_of_run hrun).2.length_eq

/-- No `client_add` of the sequence comes while `NALLOC` descriptors are added and not
deleted. -/
def RoomAtEachAdd (calls : List Call) : Prop :=
  ∀ pre fd uid junk, pre ++ [.add fd uid junk] <+: calls → (addedFds pre).length < NALLOC

theorem runs_of_room {calls : List Call} (room : RoomAtEachAdd calls) (pre : List Call)
    (hpre : pre <+: calls) : ∃ t, runCalls pre = .ok t := by
  induction pre using List.reverseRecOn with
  | nil => exact ⟨.init, rfl⟩
  | append_singleton pre c ih =>
      obtain ⟨t, hrun⟩ := ih ((List.prefix_append pre [c]).trans hpre)
      have alloc := (allocated_of_run hrun).1
      cases c with
      | add fd uid junk =>
          have free := room pre fd uid junk hpre
          rw [← inUse_length_of_run hrun] at free
          obtain ⟨t', i, hexec, -⟩ := exec_add alloc free fd uid junk
          exact ⟨t', runCalls_concat_ok hrun hexec⟩
      | del fd =>
          obtain ⟨t', hexec, -⟩ := exec_del alloc fd
          exact ⟨t', runCalls_concat_ok hrun hexec⟩

/-- A sequence in which `client_add` finds no room does not return. -/
theorem not_runs_of_full {pre : List Call} {fd : Int} {uid : Nat} {junk : Nat → Client}
    {t : ClientTable} (noRoom : ¬ (addedFds pre).length < NALLOC) :
    runCalls (pre ++ [.add fd uid junk]) ≠ .ok t := by
  intro hrun
  obtain ⟨t₀, hrun₀, r, hexec⟩ := runCalls_concat_inv hrun
  rw [← inUse_length_of_run hrun₀] at noRoom
  rw [exec_add_full (allocated_of_run hrun₀).1 noRoom] at hexec
  cases hexec

/-- The capacity is exact, and no access leaves the array, exactly in the sequences that
never add a descriptor to `NALLOC` others. -/
theorem capacity_exact_iff (calls : List Call) : CapacityExact calls ↔ RoomAtEachAdd calls := by
  constructor
  · intro exact pre fd uid junk hpre
    by_contra noRoom
    obtain ⟨t, hrun, -⟩ := exact _ hpre
    exact not_runs_of_full noRoom hrun
  · intro room pre hpre
    obtain ⟨t, hrun⟩ := runs_of_room room pre hpre
    exact ⟨t, hrun, (allocated_of_run hrun).1.clientSize⟩

/-- `n` clients connect one after the other, with descriptors from 3 on. -/
def connectMany (n : Nat) : List Call :=
  (List.range n).map fun k : Nat => .add (k + 3) 1000 fun _ => ⟨0, 0⟩

/-- The eleventh client makes `client_alloc` write to entry 10 of 10. -/
theorem capacity_eleven :
    runCalls (connectMany 11) = .error (.outOfBounds 10) ∧ ¬ CapacityExact (connectMany 11) := by
  have fault : runCalls (connectMany 11) = .error (.outOfBounds 10) := rfl
  refine ⟨fault, fun exact => ?_⟩
  obtain ⟨t, hrun, _⟩ := exact _ (List.prefix_refl _)
  rw [fault] at hrun
  cases hrun

/-- The list of connected clients after a call. -/
def connect (conns : List (Int × Nat)) : Call → List (Int × Nat)
  | .add fd uid _ => (fd, uid) :: conns
  | .del fd => conns.filter (·.1 ≠ fd)

def connected (calls : List Call) : List (Int × Nat) := calls.foldl connect []

/-- Clients connect with nonnegative descriptors that are not connected already. -/
def DistinctClients (calls : List Call) : Prop :=
  ∀ pre fd uid junk, pre ++ [.add fd uid junk] <+: calls →
    0 ≤ fd ∧ ∀ uid', (fd, uid') ∉ connected pre

/-- The entries in use are the connected clients, each with its own user in exactly one
entry. -/
structure Holds (t : ClientTable) (conns : List (Int × Nat)) : Prop where
  sound : ∀ (i : Nat) (e : Client), t.entries[i]? = some e → e.fd ≠ -1 → (e.fd, e.uid) ∈ conns
  complete : ∀ fd uid, (fd, uid) ∈ conns → ∃ i : Nat, t.entries[i]? = some ⟨fd, uid⟩
  unique : ∀ (i j : Nat) (e e' : Client), t.entries[i]? = some e → t.entries[j]? = some e' →
    e.fd = e'.fd → e.fd ≠ -1 → i = j

/-- What a call does to the entries and what it returns. -/
def CallEffect (t : ClientTable) (conns : List (Int × Nat)) (t' : ClientTable) :
    Call → Option Nat → Prop
  | .add fd uid _, r => ∃ i, r = some i ∧ Added t fd uid t' i
  | .del fd, r => r = none ∧ Deleted t fd t' ∧ ((∀ uid, (fd, uid) ∉ conns) → t' = t)

/-- Each call does to the table what it does to the list of connected clients. -/
def MapRefined (calls : List Call) : Prop :=
  ∀ pre c, pre ++ [c] <+: calls → ∃ t t' r, runCalls pre = .ok t ∧ exec t c = .ok (t', r) ∧
    Holds t' (connected (pre ++ [c])) ∧ CallEffect t (connected pre) t' c r

/-- The invariant behind the refinement. -/
structure Mirrors (t : ClientTable) (conns : List (Int × Nat)) : Prop where
  alloc : Allocated t
  perm : t.inUse.Perm conns
  distinct : (conns.map Prod.fst).Nodup

theorem Mirrors.nodup {t : ClientTable} {conns : List (Int × Nat)} (h : Mirrors t conns) :
    (t.inUse.map Prod.fst).Nodup :=
  (h.perm.map Prod.fst).nodup_iff.mpr h.distinct

theorem Mirrors.holds {t : ClientTable} {conns : List (Int × Nat)} (h : Mirrors t conns) :
    Holds t conns where
  sound i e he used := by
    apply h.perm.mem_iff.mp
    have inUse : e ∈ t.entries.filter (·.fd ≠ -1) :=
      List.mem_filter.mpr ⟨List.mem_of_getElem? he, by simpa using used⟩
    exact List.mem_map.mpr ⟨e, inUse, rfl⟩
  complete fd uid hmem := by
    obtain ⟨e, he, heq⟩ := List.mem_map.mp (h.perm.mem_iff.mpr hmem)
    cases heq
    obtain ⟨i, hi, hget⟩ := List.mem_iff_getElem.mp (List.mem_filter.mp he).1
    exact ⟨i, by rw [List.getElem?_eq_getElem hi, hget]⟩
  unique i j e e' := entry_unique h.nodup

theorem connected_concat (pre : List Call) (c : Call) :
    connected (pre ++ [c]) = connect (connected pre) c := by
  simp [connected, List.foldl_append]

/-- One call that returns keeps the table and the list of clients in step. -/
theorem Mirrors.call {t t' : ClientTable} {conns : List (Int × Nat)} {c : Call} {r : Option Nat}
    (h : Mirrors t conns)
    (fresh : ∀ fd uid junk, c = .add fd uid junk → 0 ≤ fd ∧ ∀ uid', (fd, uid') ∉ conns)
    (hexec : exec t c = .ok (t', r)) :
    Mirrors t' (connect conns c) ∧ CallEffect t conns t' c r := by
  cases c with
  | add fd uid junk =>
      obtain ⟨nonneg, absent⟩ := fresh fd uid junk rfl
      by_cases room : t.inUse.length < NALLOC
      · obtain ⟨t₁, i, hadd, alloc, added, perm⟩ := exec_add h.alloc room fd uid junk
        rw [hadd] at hexec
        cases hexec
        rw [if_neg (by omega)] at perm
        refine ⟨⟨alloc, perm.trans (h.perm.cons _), ?_⟩, i, rfl, added⟩
        refine List.nodup_cons.mpr ⟨?_, h.distinct⟩
        intro hmem
        obtain ⟨⟨fd', uid'⟩, hconn, rfl⟩ := List.mem_map.mp hmem
        exact absent uid' hconn
      · rw [exec_add_full h.alloc room] at hexec
        cases hexec
  | del fd =>
      obtain ⟨t₁, hdel, alloc, deleted, perm, unknown⟩ := exec_del_distinct h.alloc fd h.nodup
      rw [hdel] at hexec
      cases hexec
      refine ⟨⟨alloc, perm.trans (h.perm.filter _), ?_⟩, rfl, deleted, ?_⟩
      · exact h.distinct.sublist (List.filter_sublist.map Prod.fst)
      · intro absent
        exact unknown fun uid hmem => absent uid (h.perm.mem_iff.mp hmem)

/-- As long as the calls return, the table mirrors the connected clients. -/
theorem mirrors_of_run {calls : List Call} (clients : DistinctClients calls) (pre : List Call)
    (hpre : pre <+: calls) {t : ClientTable} (hrun : runCalls pre = .ok t) :
    Mirrors t (connected pre) := by
  induction pre using List.reverseRecOn generalizing t with
  | nil =>
      cases hrun
      exact ⟨.init, .refl _, List.nodup_nil⟩
  | append_singleton pre c ih =>
      obtain ⟨t₀, hrun₀, r, hexec⟩ := runCalls_concat_inv hrun
      have mirrors := ih ((List.prefix_append pre [c]).trans hpre) hrun₀
      rw [connected_concat]
      exact (mirrors.call (fun fd uid junk hc => clients pre fd uid junk (hc ▸ hpre)) hexec).1

/-- The descriptors of distinct clients are those of the connected ones. -/
theorem addedFds_eq {calls : List Call} (clients : DistinctClients calls) (pre : List Call)
    (hpre : pre <+: calls) : addedFds pre = (connected pre).map Prod.fst ∧
      ((connected pre).map Prod.fst).Nodup := by
  induction pre using List.reverseRecOn with
  | nil => exact ⟨rfl, List.nodup_nil⟩
  | append_singleton pre c ih =>
      obtain ⟨same, distinct⟩ := ih ((List.prefix_append pre [c]).trans hpre)
      rw [addedFds_concat, connected_concat, same]
      cases c with
      | add fd uid junk =>
          obtain ⟨nonneg, absent⟩ := clients pre fd uid junk hpre
          refine ⟨if_neg (by omega), List.nodup_cons.mpr ⟨?_, distinct⟩⟩
          simpa using absent
      | del fd =>
          refine ⟨?_, distinct.sublist (List.filter_sublist.map Prod.fst)⟩
          rw [trackFds, distinct.erase_eq_filter, List.filter_map, connect]
          exact congrArg _ (List.filter_congr fun p _ => Bool.eq_iff_iff.mpr (by simp))

/-- The table refines the map from connected descriptors to users exactly in the sequences
that never have `NALLOC` clients connected when another one arrives. -/
theorem map_refined_iff (calls : List Call) (clients : DistinctClients calls) :
    MapRefined calls ↔ ∀ pre fd uid junk, pre ++ [.add fd uid junk] <+: calls →
      (connected pre).length < NALLOC := by
  have added : ∀ pre, pre <+: calls → (addedFds pre).length = (connected pre).length := by
    intro pre hpre
    rw [(addedFds_eq clients pre hpre).1, List.length_map]
  constructor
  · intro refined pre fd uid junk hpre
    obtain ⟨t, t', r, hrun, hexec, -⟩ := refined _ _ hpre
    by_contra noRoom
    rw [← added pre ((List.prefix_append _ _).trans hpre)] at noRoom
    exact not_runs_of_full noRoom (runCalls_concat_ok hrun hexec)
  · intro room pre c hpre
    have roomAtEachAdd : RoomAtEachAdd calls := by
      intro pre fd uid junk hpre
      rw [added pre ((List.prefix_append _ _).trans hpre)]
      exact room pre fd uid junk hpre
    obtain ⟨t', hrun'⟩ := runs_of_room roomAtEachAdd _ hpre
    obtain ⟨t, hrun, r, hexec⟩ := runCalls_concat_inv hrun'
    have mirrors := mirrors_of_run clients pre ((List.prefix_append _ _).trans hpre) hrun
    obtain ⟨mirrors', effect⟩ :=
      mirrors.call (fun fd uid junk hc => clients pre fd uid junk (hc ▸ hpre)) hexec
    exact ⟨t, t', r, hrun, hexec, connected_concat pre c ▸ mirrors'.holds, effect⟩

/-- Two clients connect, one of them leaves, and a descriptor that was never connected is
deleted. -/
theorem map_refined_two :
    MapRefined [.add 3 1000 fun _ => ⟨0, 0⟩, .add 4 1001 fun _ => ⟨0, 0⟩, .del 3, .del 9] := by
  refine (map_refined_iff _ ?_).mpr ?_
  · rintro pre fd uid junk ⟨rest, h⟩
    rcases pre with _ | ⟨_, _ | ⟨_, _ | ⟨_, _ | ⟨_, pre⟩⟩⟩⟩ <;> simp at h
    · obtain ⟨⟨rfl, -, -⟩, -⟩ := h
      exact ⟨by decide, by simp [connected]⟩
    · obtain ⟨rfl, ⟨rfl, -, -⟩, -⟩ := h
      exact ⟨by decide, by simp [connected, connect]⟩
  · rintro pre fd uid junk ⟨rest, h⟩
    rcases pre with _ | ⟨_, _ | ⟨_, _ | ⟨_, _ | ⟨_, pre⟩⟩⟩⟩ <;> simp at h
    · decide
    · obtain ⟨rfl, -⟩ := h
      simp [connected, connect, NALLOC]

theorem connectMany_succ (n : Nat) :
    connectMany (n + 1) = connectMany n ++ [.add (n + 3) 1000 fun _ => ⟨0, 0⟩] := by
  simp [connectMany, List.range_succ]

theorem connected_connectMany (n : Nat) : ∀ p ∈ connected (connectMany n), p.1 < n + 3 := by
  induction n with
  | zero => simp [connectMany, connected]
  | succ n ih =>
      intro p hp
      rw [connectMany_succ, connected_concat] at hp
      obtain rfl | hp := List.mem_cons.mp hp
      · simp only
        omega
      · have := ih p hp
        omega

theorem distinctClients_connectMany (n : Nat) : DistinctClients (connectMany n) := by
  induction n with
  | zero =>
      intro pre fd uid junk h
      simp [connectMany] at h
  | succ n ih =>
      intro pre fd uid junk h
      rw [connectMany_succ] at h
      obtain heq | hpre := List.prefix_concat_iff.mp h
      · obtain ⟨rfl, hlast⟩ := List.append_inj' heq rfl
        obtain ⟨rfl, rfl, rfl⟩ : fd = n + 3 ∧ uid = 1000 ∧ junk = fun _ => ⟨0, 0⟩ := by
          simpa using hlast
        refine ⟨by omega, fun uid' hmem => ?_⟩
        exact absurd (connected_connectMany n _ hmem) (by simp)
      · exact ih pre fd uid junk hpre

/-- Eleven distinct clients connect: the last `client_add` does not return an entry. -/
theorem map_refined_eleven :
    DistinctClients (connectMany 11) ∧ ¬ MapRefined (connectMany 11) := by
  refine ⟨distinctClients_connectMany 11, fun refined => ?_⟩
  have last : connectMany 10 ++ [.add 13 1000 fun _ => ⟨0, 0⟩] <+: connectMany 11 :=
    List.prefix_refl _
  obtain ⟨t, t', r, hrun, hexec, _⟩ := refined _ _ last
  have fault : runCalls (connectMany 11) = .error (.outOfBounds 10) := rfl
  have returned := runCalls_concat_ok hrun hexec
  rw [show connectMany 10 ++ [.add 13 1000 fun _ => ⟨0, 0⟩] = connectMany 11 from rfl, fault]
    at returned
  cases returned

end UnixProgramming.OpenServer
