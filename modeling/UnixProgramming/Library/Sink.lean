import UnixProgramming.Library.Descriptor

/-!
# Descriptors written through `write`

The writing end of a descriptor is a script of what its writer meets: a call takes a
number of bytes or fails. An exhausted script takes whatever it is given. What has
been written is the concatenation of the bytes taken.
-/

namespace Descriptor

inductive WriteEvent
  | accept (count : Nat)
  | fail (errno : Errno)
  deriving DecidableEq, Repr

abbrev Sink := List WriteEvent

/-- One call: the number of bytes it takes or its error, and the script left over. -/
def write (bytes : List UInt8) : Sink → Except Errno Nat × Sink
  | [] => (.ok bytes.length, [])
  | .accept count :: rest => (.ok (min count bytes.length), rest)
  | .fail e :: rest => (.error e, rest)

/-- Calls take some bytes, and they fail only by interruption. -/
def WriteEvent.Clean : WriteEvent → Prop
  | .accept count => 0 < count
  | .fail e => e = .eintr

instance : DecidablePred WriteEvent.Clean
  | .accept count => inferInstanceAs (Decidable (0 < count))
  | .fail e => inferInstanceAs (Decidable (e = .eintr))

def CleanSink (sink : Sink) : Prop := ∀ event ∈ sink, event.Clean

instance : DecidablePred CleanSink := fun sink =>
  inferInstanceAs (Decidable (∀ event ∈ sink, event.Clean))

/-- A result of `write`, for a sink that is clean. -/
inductive WriteSpec (bytes : List UInt8) (sink : Sink) : Except Errno Nat × Sink → Prop
  | taken {count : Nat} {rest : Sink} (some : 0 < count) (fits : count ≤ bytes.length)
      (clean : CleanSink rest) : WriteSpec bytes sink (.ok count, rest)
  | interrupted {rest : Sink} (clean : CleanSink rest) :
      WriteSpec bytes sink (.error .eintr, rest)

theorem write_clean {bytes : List UInt8} {sink : Sink} (nonempty : bytes ≠ [])
    (clean : CleanSink sink) : WriteSpec bytes sink (write bytes sink) := by
  have room : 0 < bytes.length := List.length_pos_iff.mpr nonempty
  cases sink with
  | nil => exact .taken room le_rfl clean
  | cons event rest =>
      have here : event.Clean := clean event List.mem_cons_self
      have later : CleanSink rest := fun e mem => clean e (List.mem_cons_of_mem _ mem)
      cases event with
      | accept count =>
          have : 0 < count := here
          exact .taken (by omega) (by omega) later
      | fail e =>
          obtain rfl : e = .eintr := here
          exact .interrupted later

/-- No call fails, and each takes some bytes. -/
def Succeeds (sink : Sink) : Prop := ∀ event ∈ sink, ∃ count, 0 < count ∧ event = .accept count

theorem write_succeeds {bytes : List UInt8} {sink : Sink} (nonempty : bytes ≠ [])
    (succeeds : Succeeds sink) :
    ∃ count rest, write bytes sink = (.ok count, rest) ∧ 0 < count ∧ Succeeds rest := by
  have room : 0 < bytes.length := List.length_pos_iff.mpr nonempty
  cases sink with
  | nil => exact ⟨bytes.length, [], rfl, room, succeeds⟩
  | cons event rest =>
      obtain ⟨count, some, rfl⟩ := succeeds event List.mem_cons_self
      exact ⟨min count bytes.length, rest, rfl, by omega,
        fun e mem => succeeds e (List.mem_cons_of_mem _ mem)⟩

/-- A call takes no more than it is given. -/
theorem count_le_of_write {bytes : List UInt8} {sink rest : Sink} {count : Nat}
    (call : write bytes sink = (.ok count, rest)) : count ≤ bytes.length := by
  cases sink with
  | nil =>
      cases call
      exact le_rfl
  | cons event sink =>
      cases event with
      | accept limit =>
          cases call
          exact min_le_right limit _
      | fail e => cases call

/-- `Writes bytes fd calls rest`: these are the results of calls in turn, each of which is given
what is left of the bytes. -/
inductive Writes : List UInt8 → Sink → List (Except Errno Nat) → Sink → Prop
  | stop {bytes : List UInt8} {fd : Sink} : Writes bytes fd [] fd
  | call {bytes : List UInt8} {fd next rest : Sink} {result : Except Errno Nat}
      {calls : List (Except Errno Nat)} (here : write bytes fd = (result, next))
      (later : Writes (bytes.drop (result.toOption.getD 0)) next calls rest) :
      Writes bytes fd (result :: calls) rest

/-- An interrupted call takes an event off the script. -/
theorem length_of_write_error {bytes : List UInt8} {sink rest : Sink} {e : Errno}
    (call : write bytes sink = (.error e, rest)) : rest.length < sink.length := by
  cases sink with
  | nil => cases call
  | cons event sink =>
      cases event with
      | accept count => cases call
      | fail e' =>
          cases call
          simp

theorem length_of_write {bytes : List UInt8} {sink rest : Sink} {r : Except Errno Nat}
    (call : write bytes sink = (r, rest)) : rest.length ≤ sink.length := by
  cases sink with
  | nil =>
      cases call
      exact le_rfl
  | cons event sink =>
      cases event <;> cases call <;> simp

end Descriptor
