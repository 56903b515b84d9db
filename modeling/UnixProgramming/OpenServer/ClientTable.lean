import Mathlib.Data.List.Perm.Basic
import Mathlib.Tactic.Common
import UnixProgramming.Library.Fallible
import UnixProgramming.Library.Transition

/-!
# The client table of the open server

`open_server_v2.c` keeps one `Client` entry per connection in an array that it means
to grow by `NALLOC` entries. The model separates the entries that are allocated from
the counter `client_size`. An access outside the allocated entries is a fault.

The growth branch assigns `client_size = NALLOC` inside the argument of `realloc`, so
the array keeps `NALLOC` entries and the loop that follows writes behind them.
-/

namespace UnixProgramming.OpenServer

def NALLOC : Nat := 10

structure Client where
  fd : Int
  uid : Nat
  deriving DecidableEq

/-- `client` is null or points to an array, `client_size` is the code's own count. -/
structure ClientTable where
  client : Option (List Client)
  clientSize : Nat
  deriving DecidableEq

inductive TableFault
  | nullArray
  | outOfBounds (i : Nat)
  | endless
  deriving DecidableEq

namespace ClientTable

def init : ClientTable := ⟨none, 0⟩

/-- The allocated entries, none at all while `client` is null. -/
def entries (t : ClientTable) : List Client := t.client.getD []

def read (t : ClientTable) (i : Nat) : Except TableFault Client :=
  match t.client with
  | none => .error .nullArray
  | some es =>
      match es[i]? with
      | none => .error (.outOfBounds i)
      | some e => .ok e

def write (t : ClientTable) (i : Nat) (e : Client) : Except TableFault ClientTable :=
  match t.client with
  | none => .error .nullArray
  | some es => if i < es.length then .ok { t with client := some (es.set i e) }
      else .error (.outOfBounds i)

/-- `client[i].fd = fd`. -/
def setFd (t : ClientTable) (i : Nat) (fd : Int) : Except TableFault ClientTable := do
  let e ← t.read i
  t.write i { e with fd }

/-- `for (i = from; i < from + n; i++) client[i].fd = -1`. -/
def initEntries (t : ClientTable) (i : Nat) : Nat → Except TableFault ClientTable
  | 0 => .ok t
  | n + 1 => do
      let t ← t.setFd i (-1)
      t.initEntries (i + 1) n

/-- `realloc` keeps the old entries that fit. New ones hold the bytes `junk`. -/
def realloc (es : List Client) (n : Nat) (junk : Nat → Client) : List Client :=
  (List.range n).map fun i => es.getD i (junk i)

def clientAlloc (t : ClientTable) (junk : Nat → Client) : Except TableFault ClientTable := do
  let t : ClientTable :=
    match t.client with
    | none => { t with client := some (realloc [] NALLOC junk) }
    | some es => { client := some (realloc es NALLOC junk), clientSize := NALLOC }
  let t ← t.initEntries t.clientSize NALLOC
  return { t with clientSize := t.clientSize + NALLOC }

/-- `for (; i < client_size; ++i) if (client[i].fd == fd)`, with `n` indices left. -/
def search (t : ClientTable) (fd : Int) (i : Nat) : Nat → Except TableFault (Option Nat)
  | 0 => .ok none
  | n + 1 => do
      let e ← t.read i
      if e.fd = fd then return some i else t.search fd (i + 1) n

/-- The loop between the label `again` and `goto again`. -/
def addAgain (fd : Int) (uid : Nat) (junk : Nat → Client) :
    Nat → ClientTable → Except TableFault (ClientTable × Nat)
  | 0, _ => .error .endless
  | fuel + 1, t => do
      match ← t.search (-1) 0 t.clientSize with
      | some i =>
          let t ← t.write i ⟨fd, uid⟩
          return (t, i)
      | none =>
          let t ← t.clientAlloc junk
          addAgain fd uid junk fuel t

/-- Two rounds are enough: `client_alloc` leaves a free entry or does not return. -/
def clientAdd (t : ClientTable) (fd : Int) (uid : Nat) (junk : Nat → Client) :
    Except TableFault (ClientTable × Nat) := do
  let t ← if t.client = none then t.clientAlloc junk else pure t
  addAgain fd uid junk 2 t

/-- An unknown descriptor only prints a message. -/
def clientDel (t : ClientTable) (fd : Int) : Except TableFault ClientTable := do
  match ← t.search fd 0 t.clientSize with
  | some i => t.setFd i (-1)
  | none => return t

end ClientTable

/-- A call, with the bytes `junk` that fresh memory holds if it allocates. -/
inductive Call
  | add (fd : Int) (uid : Nat) (junk : Nat → Client)
  | del (fd : Int)

/-- The table after a call and the index that `client_add` returns. -/
def exec (t : ClientTable) : Call → Except TableFault (ClientTable × Option Nat)
  | .add fd uid junk => do
      let (t, i) ← t.clientAdd fd uid junk
      return (t, some i)
  | .del fd => do
      let t ← t.clientDel fd
      return (t, none)

/-- The table after a sequence of calls from the initial state. -/
def runCalls (calls : List Call) : Except TableFault ClientTable :=
  calls.foldlM (fun t c => Prod.fst <$> exec t c) .init

/-- The entries that `client_alloc` leaves behind: the bytes it found, marked free. -/
def freed (e : Client) : Client := { e with fd := -1 }

@[simp] theorem freed_fd (e : Client) : (freed e).fd = -1 := rfl

/-- The table with the entries `es` when the counter is right. -/
def full (es : List Client) : ClientTable := ⟨some es, NALLOC⟩

section Specs

variable {es : List Client} {fd : Int} {uid i n : Nat} {junk : Nat → Client} {t : ClientTable}

theorem read_of_getElem? {e : Client} (h : t.client = some es) (hi : es[i]? = some e) :
    t.read i = .ok e := by
  simp [ClientTable.read, h, hi]

theorem setFd_eq {e : Client} (hi : es[i]? = some e) :
    ClientTable.setFd ⟨some es, n⟩ i fd = .ok ⟨some (es.set i { e with fd }), n⟩ := by
  have hlt : i < es.length := (List.getElem?_eq_some_iff.mp hi).1
  have hread : ClientTable.read ⟨some es, n⟩ i = .ok e := read_of_getElem? rfl hi
  simp [ClientTable.setFd, hread, ClientTable.write, hlt]

theorem search_eq (h : t.client = some es) (hlen : i + n = es.length) :
    t.search fd i n = .ok (((es.drop i).findIdx? (·.fd = fd)).map (i + ·)) := by
  induction n generalizing i with
  | zero => simp [ClientTable.search, List.drop_of_length_le (by omega : es.length ≤ i)]
  | succ n ih =>
      have hlt : i < es.length := by omega
      have rest := ih (i := i + 1) (by omega)
      rw [ClientTable.search, read_of_getElem? h (List.getElem?_eq_getElem hlt),
        List.drop_eq_getElem_cons hlt, List.findIdx?_cons]
      by_cases hfd : es[i].fd = fd
      · simp [hfd]
      · simp [hfd, rest, Function.comp_def, Nat.add_assoc, Nat.add_comm 1]

theorem initEntries_eq (hlen : i + n = es.length) {k : Nat} :
    ClientTable.initEntries ⟨some es, k⟩ i n =
      .ok ⟨some (es.take i ++ (es.drop i).map freed), k⟩ := by
  induction n generalizing i es with
  | zero => simp [ClientTable.initEntries, List.drop_of_length_le (by omega : es.length ≤ i),
      List.take_of_length_le (by omega : es.length ≤ i)]
  | succ n ih =>
      have hlt : i < es.length := by omega
      have hset : i + 1 + n = (es.set i (freed es[i])).length := by
        simp only [List.length_set]
        omega
      have rest := ih hset
      rw [ClientTable.initEntries, setFd_eq (List.getElem?_eq_getElem hlt)]
      refine rest.trans ?_
      have stored : (es.set i (freed es[i])).take (i + 1) = es.take i ++ [freed es[i]] := by
        rw [List.take_set, List.take_succ_eq_append_getElem hlt,
          List.set_append_right _ _ (List.length_take_le _ _)]
        simp [Nat.min_eq_left (Nat.le_of_lt hlt)]
      rw [stored, List.drop_set_of_lt (by omega), List.drop_eq_getElem_cons hlt, List.map_cons,
        List.append_assoc, List.singleton_append]

/-- The first entry behind the array is where the loop after `realloc` fails. -/
theorem initEntries_fault {k : Nat} :
    ClientTable.initEntries ⟨some es, k⟩ es.length (n + 1) = .error (.outOfBounds es.length) := by
  simp [ClientTable.initEntries, ClientTable.setFd, ClientTable.read]

/-- Growing a table of `NALLOC` entries does not return. -/
theorem clientAlloc_full :
    (full es).clientAlloc junk = .error (.outOfBounds NALLOC) := by
  have fault : ClientTable.initEntries ⟨some (ClientTable.realloc es NALLOC junk), NALLOC⟩
      (ClientTable.realloc es NALLOC junk).length (9 + 1) = _ := initEntries_fault
  have hlen : (ClientTable.realloc es NALLOC junk).length = NALLOC := by
    simp [ClientTable.realloc]
  rw [hlen] at fault
  simp only [ClientTable.clientAlloc, full]
  rw [show NALLOC = 9 + 1 from rfl] at fault ⊢
  simp [fault]

theorem clientAlloc_init :
    ClientTable.init.clientAlloc junk =
      .ok (full ((ClientTable.realloc [] NALLOC junk).map freed)) := by
  have hlen : 0 + NALLOC = (ClientTable.realloc [] NALLOC junk).length := by
    simp [ClientTable.realloc]
  simp only [ClientTable.clientAlloc, ClientTable.init]
  simp [initEntries_eq hlen, full]

@[simp] theorem full_clientSize : (full es).clientSize = NALLOC := rfl

theorem search_full (hlen : es.length = NALLOC) :
    (full es).search fd 0 NALLOC = .ok (es.findIdx? (·.fd = fd)) := by
  rw [search_eq (t := full es) rfl (by omega)]
  simp

theorem write_full {e : Client} (hi : i < es.length) :
    (full es).write i e = .ok (full (es.set i e)) := by
  simp [ClientTable.write, full, hi]

/-- With a free entry, the loop stores the client at the first one. -/
theorem addAgain_found {fuel : Nat} (hlen : es.length = NALLOC)
    (hi : es.findIdx? (·.fd = -1) = some i) :
    ClientTable.addAgain fd uid junk (fuel + 1) (full es) = .ok (full (es.set i ⟨fd, uid⟩), i) := by
  have hlt : i < es.length := (List.findIdx?_eq_some_iff_getElem.mp hi).1
  simp [ClientTable.addAgain, search_full hlen, hi, write_full hlt]

theorem clientAdd_found (hlen : es.length = NALLOC)
    (hi : es.findIdx? (·.fd = -1) = some i) :
    (full es).clientAdd fd uid junk = .ok (full (es.set i ⟨fd, uid⟩), i) :=
  addAgain_found hlen hi

/-- With every entry in use, `client_add` runs into the loop behind the array. -/
theorem clientAdd_full (hlen : es.length = NALLOC) (hi : es.findIdx? (·.fd = -1) = none) :
    (full es).clientAdd fd uid junk = .error (.outOfBounds NALLOC) := by
  have again : (full es).clientAdd fd uid junk = ClientTable.addAgain fd uid junk 2 (full es) := rfl
  rw [again, ClientTable.addAgain]
  simp [search_full hlen, hi, clientAlloc_full]

/-- The first call allocates and uses entry 0. -/
theorem clientAdd_init :
    ClientTable.init.clientAdd fd uid junk =
      .ok (full (((ClientTable.realloc [] NALLOC junk).map freed).set 0 ⟨fd, uid⟩), 0) := by
  have hlen : ((ClientTable.realloc [] NALLOC junk).map freed).length = NALLOC := by
    simp [ClientTable.realloc]
  have hfirst : ((ClientTable.realloc [] NALLOC junk).map freed).findIdx? (·.fd = -1) = some 0 :=
    rfl
  have add : ClientTable.addAgain fd uid junk 2
      (full ((ClientTable.realloc [] NALLOC junk).map freed)) = _ := addAgain_found hlen hfirst
  simp only [ClientTable.clientAdd, clientAlloc_init, show ClientTable.init.client = none from rfl,
    if_true]
  exact add

theorem clientDel_found {e : Client} (hlen : es.length = NALLOC)
    (hi : es.findIdx? (·.fd = fd) = some i) (he : es[i]? = some e) :
    (full es).clientDel fd = .ok (full (es.set i (freed e))) := by
  have store : (full es).setFd i (-1) = .ok (full (es.set i (freed e))) := setFd_eq he
  simp [ClientTable.clientDel, search_full hlen, hi, store]

theorem clientDel_unknown (hlen : es.length = NALLOC) (hi : es.findIdx? (·.fd = fd) = none) :
    (full es).clientDel fd = .ok (full es) := by
  simp [ClientTable.clientDel, search_full hlen, hi]

end Specs

end UnixProgramming.OpenServer
