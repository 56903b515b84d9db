import UnixProgramming.Library.Fallible
import UnixProgramming.Network.ConnectRetry

/-!
# `tcp_connect` of `daytime_tcp_cli_v2.c`

`tcp_connect` tries the addresses that `getaddrinfo` has returned, one after the other, and it
returns what is in `sockfd` behind the loop. The caller takes a negative value for a failure.
When the last address has got a socket and no connection, the socket is closed and its number is
still in `sockfd`.
-/

namespace UnixProgramming.Network

open Fallible

/-- An address of the list, by the values of `Socket` and `connect` for it. -/
structure Addrinfo where
  socket : Int
  connect : Int
  deriving DecidableEq

/-- Why a call does not return: an access through the null pointer, or `err_quit`. -/
inductive Stop
  | nullPointer
  | exit
  deriving DecidableEq

/-- The loop, with `res` at the front of the list. `continue` goes to the condition at its end. -/
def tcpConnectLoop : List Addrinfo → Except Stop Outcome
  | [] => .error .nullPointer
  | res :: next =>
      let sockfd := res.socket
      if sockfd < 0 then
        if next.isEmpty then return ⟨sockfd, [.socket sockfd]⟩
        else Outcome.after [.socket sockfd] <$> tcpConnectLoop next
      else if res.connect = 0 then return ⟨sockfd, [.socket sockfd, .connect sockfd]⟩
      else
        -- `Close(sockfd)`
        let calls : List Call := [.socket sockfd, .connect sockfd, .close sockfd]
        if next.isEmpty then return ⟨sockfd, calls⟩
        else Outcome.after calls <$> tcpConnectLoop next

/-- `n` is the value of `Getaddrinfo`. -/
def tcpConnect (n : Int) (res : List Addrinfo) : Except Stop Outcome :=
  if n ≠ 0 then .error .exit else tcpConnectLoop res

/-- Both calls succeed for the address. -/
def Addrinfo.Succeeds (res : Addrinfo) : Prop := 0 ≤ res.socket ∧ res.connect = 0

instance : DecidablePred Addrinfo.Succeeds := fun res =>
  inferInstanceAs (Decidable (0 ≤ res.socket ∧ res.connect = 0))

/-- The calls for an address that fails. -/
def Addrinfo.failedCalls (res : Addrinfo) : List Call :=
  if res.socket < 0 then [.socket res.socket]
  else [.socket res.socket, .connect res.socket, .close res.socket]

/-- The loop goes on behind an address that fails, unless it is the last one. -/
theorem tcpConnectLoop_failed {res : Addrinfo} (fails : ¬ res.Succeeds) (next : List Addrinfo) :
    tcpConnectLoop (res :: next) =
      if next.isEmpty then .ok ⟨res.socket, res.failedCalls⟩
      else Outcome.after res.failedCalls <$> tcpConnectLoop next := by
  rw [tcpConnectLoop, Addrinfo.failedCalls]
  by_cases noSocket : res.socket < 0
  · simp only [if_pos noSocket]
    rfl
  · have refused : res.connect ≠ 0 := fun success => fails ⟨Int.not_lt.mp noSocket, success⟩
    simp only [if_neg noSocket, if_neg refused]
    rfl

theorem tcpConnectLoop_succeeds {res : Addrinfo} (succeeds : res.Succeeds)
    (next : List Addrinfo) :
    tcpConnectLoop (res :: next) =
      .ok ⟨res.socket, [.socket res.socket, .connect res.socket]⟩ := by
  obtain ⟨new, success⟩ := succeeds
  rw [tcpConnectLoop]
  simp only [if_neg (Int.not_lt.mpr new), if_pos success]
  rfl

@[simp] theorem opened_append (calls calls' : List Call) :
    opened (calls ++ calls') = opened calls ++ opened calls' := List.filterMap_append

@[simp] theorem closed_append (calls calls' : List Call) :
    closed (calls ++ calls') = closed calls ++ closed calls' := List.filterMap_append

/-- An address that fails leaves no descriptor open. -/
theorem opened_failedCalls (res : Addrinfo) : opened res.failedCalls = closed res.failedCalls := by
  rw [Addrinfo.failedCalls]
  split
  · rename_i noSocket
    simp [opened, closed, noSocket]
  · rename_i new
    simp [opened, closed, new]

theorem opened_flatMap_failedCalls (res : List Addrinfo) :
    opened (res.flatMap Addrinfo.failedCalls) = closed (res.flatMap Addrinfo.failedCalls) := by
  induction res with
  | nil => rfl
  | cons first res ih =>
      rw [List.flatMap_cons, opened_append, closed_append, opened_failedCalls, ih]

/-- Where all addresses fail, the value is what `Socket` has returned for the last one. -/
theorem tcpConnectLoop_all_failed {res : List Addrinfo} {last : Addrinfo}
    (fail : ∀ r ∈ res ++ [last], ¬ r.Succeeds) :
    tcpConnectLoop (res ++ [last]) =
      .ok ⟨last.socket, (res ++ [last]).flatMap Addrinfo.failedCalls⟩ := by
  induction res with
  | nil => simp [tcpConnectLoop_failed (fail last (by simp))]
  | cons first res ih =>
      rw [List.cons_append, tcpConnectLoop_failed (fail first (by simp)), if_neg (by simp),
        ih fun r mem => fail r (List.mem_cons_of_mem first mem), List.flatMap_cons]
      rfl

theorem tcpConnectLoop_first {front back : List Addrinfo} {res : Addrinfo}
    (fail : ∀ r ∈ front, ¬ r.Succeeds) (succeeds : res.Succeeds) :
    tcpConnectLoop (front ++ res :: back) = .ok ⟨res.socket,
      front.flatMap Addrinfo.failedCalls ++ [.socket res.socket, .connect res.socket]⟩ := by
  induction front with
  | nil => exact tcpConnectLoop_succeeds succeeds back
  | cons first front ih =>
      rw [List.cons_append, tcpConnectLoop_failed (fail first (by simp)), if_neg (by simp),
        ih fun r mem => fail r (List.mem_cons_of_mem first mem), List.flatMap_cons,
        List.append_assoc]
      rfl

/-- The first address for which both calls succeed is connected last, and its descriptor is
returned and the only one that is open. Where there is no such address, the value is negative
and no descriptor is open. -/
inductive ConnectRight (res : List Addrinfo) (r : Outcome) : Prop
  | connected {front back : List Addrinfo} {first : Addrinfo} (split : res = front ++ first :: back)
      (fail : ∀ r ∈ front, ¬ r.Succeeds) (succeeds : first.Succeeds) (ret : r.ret = first.socket)
      (last : r.calls.getLast? = some (.connect first.socket))
      (descriptors : opened r.calls = closed r.calls ++ [first.socket])
  | failed (fail : ∀ r ∈ res, ¬ r.Succeeds) (ret : r.ret < 0)
      (descriptors : opened r.calls = closed r.calls)

/-- `tcp_connect` does its work exactly where an address succeeds or the last one has got no
socket. It does not come to the end of the list in any case. -/
theorem tcpConnect_right_iff {res : List Addrinfo} (nonempty : res ≠ []) :
    ∃ r, tcpConnect 0 res = .ok r ∧ (ConnectRight res r ↔
      (∃ a ∈ res, a.Succeeds) ∨ ∃ last, res.getLast? = some last ∧ last.socket < 0) := by
  by_cases fail : ∀ a ∈ res, ¬ a.Succeeds
  · obtain rfl | ⟨front, last, rfl⟩ := List.eq_nil_or_concat res
    · exact absurd rfl nonempty
    · rw [List.concat_eq_append] at fail ⊢
      refine ⟨_, tcpConnectLoop_all_failed fail, ?_⟩
      constructor
      · intro right
        cases right with
        | connected split _ succeeds => exact absurd succeeds (fail _ (by simp [split]))
        | failed _ ret _ => exact .inr ⟨last, List.getLast?_concat, ret⟩
      · rintro (⟨a, mem, succeeds⟩ | ⟨last', same, noSocket⟩)
        · exact absurd succeeds (fail a mem)
        · rw [List.getLast?_concat] at same
          cases same
          exact .failed fail noSocket (opened_flatMap_failedCalls _)
  · obtain ⟨a, mem, succeeds⟩ : ∃ a ∈ res, a.Succeeds := by simpa using fail
    have some : (res.find? fun a => decide a.Succeeds).isSome :=
      List.find?_isSome.mpr ⟨a, mem, decide_eq_true succeeds⟩
    obtain ⟨first, found⟩ := Option.isSome_iff_exists.mp some
    obtain ⟨first', front, back, rfl, others⟩ := List.find?_eq_some_iff_append.mp found
    have first' : first.Succeeds := of_decide_eq_true first'
    have fail : ∀ r ∈ front, ¬ r.Succeeds := by simpa using others
    refine ⟨_, tcpConnectLoop_first fail first', iff_of_true ?_ (.inl ⟨a, mem, succeeds⟩)⟩
    refine .connected rfl fail first' rfl (by simp) ?_
    dsimp only
    rw [opened_append, closed_append, opened_flatMap_failedCalls]
    simp [opened, closed, Int.not_lt.mpr first'.1]

/-- A refused address, one without a socket, and one that is connected. -/
theorem tcpConnect_right_third :
    ∃ r, tcpConnect 0 [⟨3, -1⟩, ⟨-1, 0⟩, ⟨3, 0⟩] = .ok r ∧
      ConnectRight [⟨3, -1⟩, ⟨-1, 0⟩, ⟨3, 0⟩] r := by
  obtain ⟨r, run, right⟩ := tcpConnect_right_iff (by simp : [⟨3, -1⟩, ⟨-1, 0⟩, ⟨3, 0⟩] ≠ [])
  exact ⟨r, run, right.mpr (.inl ⟨⟨3, 0⟩, by simp, by decide⟩)⟩

/-- One address, and it refuses: the number of the closed socket is returned. -/
theorem tcpConnect_returns_closed :
    tcpConnect 0 [⟨3, -1⟩] = .ok ⟨3, [.socket 3, .connect 3, .close 3]⟩ ∧
      ¬ ConnectRight [⟨3, -1⟩] ⟨3, [.socket 3, .connect 3, .close 3]⟩ := by
  refine ⟨rfl, ?_⟩
  intro right
  cases right with
  | connected split fail succeeds ret last descriptors => simp at last
  | failed fail ret descriptors => exact absurd ret (by decide)

end UnixProgramming.Network
