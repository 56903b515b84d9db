import Mathlib.Algebra.Ring.Int.Defs
import Mathlib.Data.List.Basic
import Mathlib.Tactic.Common

/-!
# `connect_retry` and `connect_retry_v2` of `network_ipc.c`

Both functions try to connect again after a delay that is meant to double. The third expression
of both loops is `numsec << 1`, which assigns nothing, so the delay stays one second and the
bound on it is never passed. The outcomes of `socket` and `connect` are given for all rounds,
and a run that has not come to its end within `fuel` rounds has no value.
-/

namespace UnixProgramming.Network

inductive Call
  | socket (ret : Int)
  | connect (fd : Int)
  | close (fd : Int)
  | sleep (numsec : Int)
  deriving DecidableEq

/-- What one round does before it sleeps: its calls, and the value that it returns, if any. -/
structure Round where
  calls : List Call
  ret : Option Int

/-- The value of a function and all its calls. -/
structure Outcome where
  ret : Int
  calls : List Call
  deriving DecidableEq

def Outcome.after (calls : List Call) (r : Outcome) : Outcome := ⟨r.ret, calls ++ r.calls⟩

def MAXSLEEP : Int := 128

/-- The loop of both functions, in round `i`. -/
def retryLoop (round : Nat → Round) (i : Nat) (numsec : Int) : Nat → Option Outcome
  | 0 => none
  | fuel + 1 =>
      if numsec ≤ MAXSLEEP then
        match (round i).ret with
        | some ret => some ⟨ret, (round i).calls⟩
        | none =>
            let delay := if numsec ≤ MAXSLEEP / 2 then [.sleep numsec] else []
            -- `numsec << 1` leaves `numsec` as it is
            (retryLoop round (i + 1) numsec fuel).map (.after ((round i).calls ++ delay))
      else some ⟨-1, []⟩

/-- `connect i` is the value of `connect` in round `i`. -/
def connectRetry (sockfd : Int) (connect : Nat → Int) : Nat → Option Outcome :=
  retryLoop (fun i => ⟨[.connect sockfd], if connect i = 0 then some 0 else none⟩) 0 1

/-- A round of `connect_retry_v2`, with the values of its two calls. -/
def connectRoundV2 (fd connect : Int) : Round :=
  if fd < 0 then ⟨[.socket fd], some (-1)⟩
  else if connect = 0 then ⟨[.socket fd, .connect fd], some fd⟩
  else ⟨[.socket fd, .connect fd, .close fd], none⟩

def connectRetryV2 (socket connect : Nat → Int) : Nat → Option Outcome :=
  retryLoop (fun i => connectRoundV2 (socket i) (connect i)) 0 1

/-! ## What the loop does -/

def sleeps (calls : List Call) : List Int :=
  calls.filterMap fun
    | .sleep numsec => some numsec
    | _ => none

@[simp] theorem sleeps_append (calls calls' : List Call) :
    sleeps (calls ++ calls') = sleeps calls ++ sleeps calls' := List.filterMap_append

/-- A run is a number of rounds without a value, with a sleep of one second behind each, and one
round with a value. -/
theorem retryLoop_some {round : Nat → Round} (quiet : ∀ i, sleeps (round i).calls = [])
    {fuel i : Nat} {r : Outcome} (run : retryLoop round i 1 fuel = some r) :
    ∃ k, (∀ j < k, (round (i + j)).ret = none) ∧ (round (i + k)).ret = some r.ret ∧
      sleeps r.calls = List.replicate k 1 := by
  induction fuel generalizing i r with
  | zero => cases run
  | succ fuel ih =>
      rw [retryLoop, if_pos (by decide)] at run
      cases result : (round i).ret with
      | some ret =>
          rw [result] at run
          cases run
          exact ⟨0, by simp, result, quiet i⟩
      | none =>
          rw [result] at run
          obtain ⟨r', run', rfl⟩ := Option.map_eq_some_iff.mp run
          obtain ⟨k, failed, last, delays⟩ := ih run'
          refine ⟨k + 1, fun j less => ?_, ?_, ?_⟩
          · cases j with
            | zero => exact result
            | succ j =>
                rw [← Nat.succ_add_eq_add_succ]
                exact failed j (Nat.lt_of_succ_lt_succ less)
          · rw [← Nat.succ_add_eq_add_succ]
            exact last
          · rw [Outcome.after, sleeps_append, sleeps_append, quiet, delays, List.replicate_succ]
            rfl

theorem retryLoop_first {round : Nat → Round} {i : Nat} {ret : Int} (fuel : Nat)
    (first : (round i).ret = some ret) :
    retryLoop round i 1 (fuel + 1) = some ⟨ret, (round i).calls⟩ := by
  rw [retryLoop, if_pos (by decide), first]

theorem retryLoop_again {round : Nat → Round} {i : Nat} (fuel : Nat)
    (failed : (round i).ret = none) :
    retryLoop round i 1 (fuel + 1) =
      (retryLoop round (i + 1) 1 fuel).map (.after ((round i).calls ++ [.sleep 1])) := by
  rw [retryLoop, if_pos (by decide), failed]
  rfl

theorem retryLoop_second {round : Nat → Round} {ret : Int} (failed : (round 0).ret = none)
    (second : (round 1).ret = some ret) :
    retryLoop round 0 1 2 = some ⟨ret, (round 0).calls ++ [.sleep 1] ++ (round 1).calls⟩ := by
  rw [retryLoop_again 1 failed, retryLoop_first 0 second]
  rfl

/-- A loop whose rounds have no value does not come to an end. -/
theorem retryLoop_none {round : Nat → Round} (failed : ∀ i, (round i).ret = none)
    (fuel i : Nat) : retryLoop round i 1 fuel = none := by
  induction fuel generalizing i with
  | zero => rfl
  | succ fuel ih => rw [retryLoop_again fuel (failed i), ih, Option.map_none]

/-- Delays that stay at one second double only as long as there is at most one of them. -/
theorem le_one_of_doubling {k k' : Nat}
    (same : List.replicate k (1 : Int) = (List.range k').map (2 ^ ·)) : k = k' ∧ k ≤ 1 := by
  have count : k = k' := by simpa using congrArg List.length same
  subst count
  refine ⟨rfl, Nat.not_lt.mp fun more => ?_⟩
  have second := congrArg (·[1]?) same
  simp [more] at second

/-- `k` rounds, with delays that double behind them. -/
def rounds (calls : Nat → List Call) (k : Nat) : List Call :=
  (List.range k).flatMap fun i => calls i ++ [.sleep (2 ^ i)]

theorem sleeps_rounds {calls : Nat → List Call} (quiet : ∀ i, sleeps (calls i) = []) (k : Nat) :
    sleeps (rounds calls k) = (List.range k).map (2 ^ ·) := by
  rw [rounds, sleeps, List.filterMap_flatMap, List.map_eq_flatMap]
  congr 1
  funext i
  exact (sleeps_append _ _).trans (by rw [quiet i]; rfl)

/-! ## `connect_retry` -/

/-- `k` attempts failed, with delays that double behind them, and one more was made: it
succeeded, or it was the eighth one. -/
structure RetryRight (sockfd : Int) (connect : Nat → Int) (r : Outcome) (k : Nat) : Prop where
  few : k ≤ 7
  failed : ∀ i < k, connect i ≠ 0
  calls : r.calls = rounds (fun _ => [.connect sockfd]) k ++ [.connect sockfd]
  value : connect k = 0 ∧ r.ret = 0 ∨ k = 7 ∧ connect k ≠ 0 ∧ r.ret = -1

variable {sockfd : Int} {socket connect : Nat → Int}

/-- `connect_retry` does its work exactly where one of the first two attempts succeeds. -/
theorem connectRetry_right_iff :
    (∃ fuel r k, connectRetry sockfd connect fuel = some r ∧ RetryRight sockfd connect r k) ↔
      connect 0 = 0 ∨ connect 1 = 0 := by
  constructor
  · rintro ⟨fuel, r, k, run, right⟩
    obtain ⟨k', -, last, delays⟩ := retryLoop_some (fun _ => rfl) run
    rw [right.calls, sleeps_append, sleeps_rounds fun _ => rfl] at delays
    obtain ⟨-, few⟩ := le_one_of_doubling ((List.append_nil _).symm.trans delays).symm
    have success : connect k' = 0 := by
      by_contra failed
      simp [failed] at last
    obtain rfl | rfl : k' = 0 ∨ k' = 1 := by omega
    · exact .inl success
    · exact .inr success
  · intro early
    by_cases first : connect 0 = 0
    · exact ⟨1, _, 0, retryLoop_first 0 (if_pos first), by omega, by simp, rfl, .inl ⟨first, rfl⟩⟩
    · have second : connect 1 = 0 := early.resolve_left first
      refine ⟨2, _, 1, retryLoop_second (if_neg first) (if_pos second), by omega, ?_, rfl,
        .inl ⟨second, rfl⟩⟩
      intro i less
      obtain rfl : i = 0 := by omega
      exact first

/-- Where no attempt succeeds, `connect_retry` does not return. -/
theorem connectRetry_endless (failed : ∀ i, connect i ≠ 0) (fuel : Nat) :
    connectRetry sockfd connect fuel = none :=
  retryLoop_none (fun i => if_neg (failed i)) fuel 0

/-! ## `connect_retry_v2` -/

/-- The descriptors that `socket` has opened. -/
def opened (calls : List Call) : List Int :=
  calls.filterMap fun
    | .socket fd => if fd < 0 then none else some fd
    | _ => none

def closed (calls : List Call) : List Int :=
  calls.filterMap fun
    | .close fd => some fd
    | _ => none

/-- The round in which `connect_retry_v2` returns. -/
inductive LastRound (k : Nat) (fd connect : Int) : Int → List Call → Prop
  | noSocket (failed : fd < 0) : LastRound k fd connect (-1) [.socket fd]
  | connected (new : 0 ≤ fd) (success : connect = 0) :
      LastRound k fd connect fd [.socket fd, .connect fd]
  | eighth (last : k = 7) (new : 0 ≤ fd) (failed : connect ≠ 0) :
      LastRound k fd connect (-1) [.socket fd, .connect fd, .close fd]

/-- The same for `connect_retry_v2`, which has a socket for every attempt: all that it opens but
what it returns is closed. -/
structure RetryV2Right (socket connect : Nat → Int) (r : Outcome) (k : Nat) : Prop where
  few : k ≤ 7
  failed : ∀ i < k, 0 ≤ socket i ∧ connect i ≠ 0
  calls : ∃ last, LastRound k (socket k) (connect k) r.ret last ∧ r.calls =
    rounds (fun i => [.socket (socket i), .connect (socket i), .close (socket i)]) k ++ last
  descriptors : opened r.calls = closed r.calls ++ if r.ret < 0 then [] else [r.ret]

theorem sleeps_connectRoundV2 (fd connect : Int) :
    sleeps (connectRoundV2 fd connect).calls = [] := by
  rw [connectRoundV2]
  split
  · rfl
  · split <;> rfl

theorem LastRound.sleeps_eq {k : Nat} {fd connect ret : Int} {last : List Call}
    (h : LastRound k fd connect ret last) : sleeps last = [] := by
  cases h <;> rfl

/-- A round with a value is one in which `connect_retry_v2` may return. -/
theorem lastRound_of_ret {fd connect ret : Int} (k : Nat)
    (h : (connectRoundV2 fd connect).ret = some ret) :
    LastRound k fd connect ret (connectRoundV2 fd connect).calls := by
  rw [connectRoundV2] at h ⊢
  split
  · rename_i failed
    rw [if_pos failed] at h
    cases h
    exact .noSocket failed
  · rename_i new
    rw [if_neg new] at h
    split
    · rename_i success
      rw [if_pos success] at h
      cases h
      exact .connected (Int.not_lt.mp new) success
    · rename_i failed
      rw [if_neg failed] at h
      cases h

theorem connectRoundV2_ret_eq_none_iff {fd connect : Int} :
    (connectRoundV2 fd connect).ret = none ↔ 0 ≤ fd ∧ connect ≠ 0 := by
  rw [connectRoundV2]
  split
  · rename_i failed
    simp
    omega
  · rename_i new
    split
    · rename_i success
      simp [success]
    · rename_i failed
      simp only [failed, ne_eq, not_false_eq_true, and_true, true_iff]
      omega

/-- A failed round closes its socket. -/
theorem calls_of_failed {fd connect : Int} (new : 0 ≤ fd) (failed : connect ≠ 0) :
    (connectRoundV2 fd connect).calls = [.socket fd, .connect fd, .close fd] := by
  rw [connectRoundV2, if_neg (Int.not_lt.mpr new), if_neg failed]

theorem LastRound.descriptors {k : Nat} {fd connect ret : Int} {last : List Call}
    (h : LastRound k fd connect ret last) :
    opened last = closed last ++ if ret < 0 then [] else [ret] := by
  cases h with
  | noSocket failed => simp [opened, closed, failed]
  | connected new success => simp [opened, closed, Int.not_lt.mpr new]
  | eighth last new failed => simp [opened, closed, Int.not_lt.mpr new]

/-- `connect_retry_v2` does its work exactly where it returns in one of its first two rounds. -/
theorem connectRetryV2_right_iff :
    (∃ fuel r k, connectRetryV2 socket connect fuel = some r ∧
      RetryV2Right socket connect r k) ↔
      (socket 0 < 0 ∨ connect 0 = 0) ∨ socket 1 < 0 ∨ connect 1 = 0 := by
  have ends (i : Nat) : (socket i < 0 ∨ connect i = 0) ↔
      ∃ ret, (connectRoundV2 (socket i) (connect i)).ret = some ret := by
    rw [← Option.ne_none_iff_exists', ne_eq, connectRoundV2_ret_eq_none_iff]
    omega
  rw [ends, ends]
  constructor
  · rintro ⟨fuel, r, k, run, right⟩
    obtain ⟨k', -, last, delays⟩ := retryLoop_some (fun i => sleeps_connectRoundV2 _ _) run
    obtain ⟨calls, lastRound, all⟩ := right.calls
    rw [all, sleeps_append, sleeps_rounds fun _ => rfl, lastRound.sleeps_eq] at delays
    obtain ⟨-, few⟩ := le_one_of_doubling ((List.append_nil _).symm.trans delays).symm
    obtain rfl | rfl : k' = 0 ∨ k' = 1 := by omega
    · exact .inl ⟨_, last⟩
    · exact .inr ⟨_, last⟩
  · intro early
    cases first : (connectRoundV2 (socket 0) (connect 0)).ret with
    | some ret =>
        have lastRound := lastRound_of_ret 0 first
        exact ⟨1, _, 0, retryLoop_first 0 first, by omega, by simp, ⟨_, lastRound, rfl⟩,
          lastRound.descriptors⟩
    | none =>
        obtain ⟨ret, second⟩ := early.resolve_left (by simp [first])
        obtain ⟨new, failed⟩ := connectRoundV2_ret_eq_none_iff.mp first
        have lastRound := lastRound_of_ret 1 second
        refine ⟨2, _, 1, retryLoop_second first second, by omega, ?_, ⟨_, lastRound, ?_⟩, ?_⟩
        · intro i less
          obtain rfl : i = 0 := by omega
          exact ⟨new, failed⟩
        · dsimp only
          rw [calls_of_failed new failed]
          rfl
        · have rest := lastRound.descriptors
          simp only [opened, closed] at rest ⊢
          simp [calls_of_failed new failed, rest, Int.not_lt.mpr new]

/-! ## Both functions -/

/-- Both functions retry as they should exactly where they return in one of their first two
rounds. -/
theorem connect_retry_right_iff (sockfd : Int) (socket connect : Nat → Int) :
    ((∃ fuel r k, connectRetry sockfd connect fuel = some r ∧ RetryRight sockfd connect r k) ↔
      connect 0 = 0 ∨ connect 1 = 0) ∧
    ((∃ fuel r k, connectRetryV2 socket connect fuel = some r ∧
      RetryV2Right socket connect r k) ↔
      (socket 0 < 0 ∨ connect 0 = 0) ∨ socket 1 < 0 ∨ connect 1 = 0) :=
  ⟨connectRetry_right_iff, connectRetryV2_right_iff⟩

/-- A server that refuses every connection: both functions go on for ever. -/
theorem connect_retry_endless :
    (∀ fuel, connectRetry 3 (fun _ => -1) fuel = none) ∧
      (∀ fuel, connectRetryV2 (fun _ => 3) (fun _ => -1) fuel = none) ∧
      (¬ ∃ fuel r k, connectRetry 3 (fun _ => -1) fuel = some r ∧
        RetryRight 3 (fun _ => -1) r k) ∧
      ¬ ∃ fuel r k, connectRetryV2 (fun _ => 3) (fun _ => -1) fuel = some r ∧
        RetryV2Right (fun _ => 3) (fun _ => -1) r k := by
  have endless (fuel : Nat) : connectRetry 3 (fun _ => -1) fuel = none :=
    connectRetry_endless (fun _ => by decide) fuel
  have endlessV2 (fuel : Nat) : connectRetryV2 (fun _ => 3) (fun _ => -1) fuel = none :=
    retryLoop_none (fun _ => rfl) fuel 0
  refine ⟨endless, endlessV2, ?_, ?_⟩
  · rintro ⟨fuel, r, k, run, -⟩
    rw [endless] at run
    cases run
  · rintro ⟨fuel, r, k, run, -⟩
    rw [endlessV2] at run
    cases run

end UnixProgramming.Network
