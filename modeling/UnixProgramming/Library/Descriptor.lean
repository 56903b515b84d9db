import UnixProgramming.Library.CMemory

/-!
# Descriptors read through `read`

The reading end of a descriptor is a script of the events that its reader meets:
bytes arrive in pieces and calls fail. An exhausted script is at end of file. A
call takes at most one piece and leaves what does not fit for the next call, so
the scripts with given bytes are all the ways to cut them into results.
-/

namespace Descriptor

/-- The values of `errno` that callers tell apart. -/
inductive Errno
  | eintr
  | other (code : Nat)
  deriving DecidableEq, Repr

inductive ReadEvent
  | data (bytes : List UInt8)
  | fail (errno : Errno)
  deriving DecidableEq, Repr

abbrev Script := List ReadEvent

/-- One call: the bytes it stores or its error, and the script left over. -/
def read (count : Nat) : Script → Except Errno (List UInt8) × Script
  | [] => (.ok [], [])
  | .fail e :: rest => (.error e, rest)
  | .data bytes :: rest =>
      if bytes.length ≤ count then (.ok bytes, rest)
      else (.ok (bytes.take count), .data (bytes.drop count) :: rest)

/-- Call `read` again for as long as it is interrupted. -/
def readAgain (count : Nat) : Script → Except Errno (List UInt8) × Script
  | .fail .eintr :: rest => readAgain count rest
  | script => read count script

/-- A failed call takes its event off the script. -/
theorem length_of_read_error {count : Nat} {script rest : Script} {e : Errno}
    (call : read count script = (.error e, rest)) : rest.length < script.length := by
  match script with
  | [] => cases call
  | .fail e' :: script =>
      cases call
      simp
  | .data bytes :: script =>
      rw [read] at call
      split at call <;> cases call

theorem length_of_read {count : Nat} {script rest : Script} {r : Except Errno (List UInt8)}
    (call : read count script = (r, rest)) : rest.length ≤ script.length := by
  match script with
  | [] =>
      cases call
      exact le_rfl
  | .fail e :: script =>
      cases call
      simp
  | .data bytes :: script =>
      rw [read] at call
      split at call <;> cases call <;> simp

/-- The byte stream behind a script. -/
def bytesOf : Script → List UInt8
  | [] => []
  | .fail _ :: rest => bytesOf rest
  | .data bytes :: rest => bytes ++ bytesOf rest

/-- A call takes its bytes, at most `count`, off the front of the stream. -/
theorem bytesOf_of_read {count : Nat} {script rest : Script} {r : Except Errno (List UInt8)}
    (call : read count script = (r, rest)) :
    bytesOf script = r.toOption.getD [] ++ bytesOf rest ∧ (r.toOption.getD []).length ≤ count := by
  match script with
  | [] =>
      cases call
      exact ⟨rfl, Nat.zero_le count⟩
  | .fail e :: script =>
      cases call
      exact ⟨rfl, Nat.zero_le count⟩
  | .data bytes :: script =>
      rw [read] at call
      split at call
      · rename_i fits
        cases call
        exact ⟨rfl, fits⟩
      · cases call
        refine ⟨?_, List.length_take_le count bytes⟩
        simp [bytesOf, Except.toOption, ← List.append_assoc]

/-- `Reads nleft fd calls rest`: these are the results of calls in turn, each of which asks for
what is left of `nleft` bytes. -/
inductive Reads : Nat → Script → List (Except Errno (List UInt8)) → Script → Prop
  | stop {nleft : Nat} {fd : Script} : Reads nleft fd [] fd
  | call {nleft : Nat} {fd next rest : Script} {result : Except Errno (List UInt8)}
      {calls : List (Except Errno (List UInt8))} (here : read nleft fd = (result, next))
      (later : Reads (nleft - (result.toOption.getD []).length) next calls rest) :
      Reads nleft fd (result :: calls) rest

/-- A bound for the calls before end of file: every failure and every byte may be one. -/
def undone (script : Script) : Nat := script.length + (bytesOf script).length

theorem undone_of_read_error {count : Nat} {script rest : Script} {e : Errno}
    (call : read count script = (.error e, rest)) : undone rest < undone script := by
  have shorter := length_of_read_error call
  have stream := congrArg List.length (bytesOf_of_read call).1
  simp only [Except.toOption, Option.getD_none, List.nil_append] at stream
  rw [undone, undone]
  omega

theorem undone_of_read_cons {count : Nat} {script rest : Script} {b : UInt8} {bytes : List UInt8}
    (call : read count script = (.ok (b :: bytes), rest)) : undone rest < undone script := by
  have shorter := length_of_read call
  have stream := congrArg List.length (bytesOf_of_read call).1
  simp only [Except.toOption, Option.getD_some, List.length_append, List.length_cons] at stream
  rw [undone, undone]
  omega

/-- What calls of `read` return one after another up to the end of file, apart from failures. -/
def pieces (count : Nat) (script : Script) : List (List UInt8) :=
  match _ : read count script with
  | (.error _, rest) => pieces count rest
  | (.ok [], _) => []
  | (.ok (b :: bytes), rest) => (b :: bytes) :: pieces count rest
termination_by undone script
decreasing_by
  · exact undone_of_read_error ‹_›
  · exact undone_of_read_cons ‹_›

theorem pieces_of_error {count : Nat} {script rest : Script} {e : Errno}
    (call : read count script = (.error e, rest)) : pieces count script = pieces count rest := by
  rw [pieces]
  split <;> simp_all

theorem pieces_of_nil {count : Nat} {script rest : Script}
    (call : read count script = (.ok [], rest)) : pieces count script = [] := by
  rw [pieces]
  split <;> simp_all

theorem pieces_of_cons {count : Nat} {script rest : Script} {b : UInt8} {bytes : List UInt8}
    (call : read count script = (.ok (b :: bytes), rest)) :
    pieces count script = (b :: bytes) :: pieces count rest := by
  rw [pieces]
  split <;> simp_all

/-- Bytes come in nonempty pieces, and calls fail only by interruption. -/
def ReadEvent.Clean : ReadEvent → Prop
  | .data bytes => bytes ≠ []
  | .fail e => e = .eintr

instance : DecidablePred ReadEvent.Clean
  | .data bytes => inferInstanceAs (Decidable (bytes ≠ []))
  | .fail e => inferInstanceAs (Decidable (e = .eintr))

def Clean (script : Script) : Prop := ∀ event ∈ script, event.Clean

instance : DecidablePred Clean := fun script =>
  inferInstanceAs (Decidable (∀ event ∈ script, event.Clean))

theorem clean_nil : Clean [] := by simp [Clean]

theorem clean_cons {event : ReadEvent} {rest : Script} :
    Clean (event :: rest) ↔ event.Clean ∧ Clean rest := by
  simp [Clean]

/-- A result of `read`, for a script that is clean. -/
inductive ReadSpec (script : Script) : Except Errno (List UInt8) × Script → Prop
  | eof (exhausted : script = []) : ReadSpec script (.ok [], [])
  | bytes {b : UInt8} {bytes : List UInt8} {rest : Script} (clean : Clean rest) :
      ReadSpec script (.ok (b :: bytes), rest)
  | interrupted {rest : Script} (clean : Clean rest) : ReadSpec script (.error .eintr, rest)

theorem read_clean {count : Nat} {script : Script} (room : 0 < count) (clean : Clean script) :
    ReadSpec script (read count script) := by
  cases script with
  | nil => exact .eof rfl
  | cons event rest =>
      obtain ⟨here, later⟩ := clean_cons.mp clean
      cases event with
      | fail e =>
          obtain rfl : e = .eintr := here
          exact .interrupted later
      | data bytes =>
          obtain ⟨b, bytes, rfl⟩ := List.exists_cons_of_ne_nil here
          obtain ⟨count, rfl⟩ : ∃ n, count = n + 1 := ⟨count - 1, by omega⟩
          rw [read]
          split
          · exact .bytes later
          · rename_i long
            refine .bytes (clean_cons.mpr ⟨?_, later⟩)
            simp only [ReadEvent.Clean, ne_eq, List.drop_eq_nil_iff]
            exact long

/-- A call with room for a byte on a clean script: end of file, or the next bytes. -/
theorem readAgain_clean {count : Nat} {script : Script} (room : 0 < count)
    (clean : Clean script) :
    ∃ bytes rest, readAgain count script = (.ok bytes, rest) ∧ Clean rest ∧
      bytes.length ≤ count ∧ bytes ++ bytesOf rest = bytesOf script ∧
      (bytes = [] → bytesOf script = []) := by
  induction script with
  | nil => exact ⟨[], [], rfl, clean_nil, by simp, rfl, fun _ => rfl⟩
  | cons event rest ih =>
      obtain ⟨here, later⟩ := clean_cons.mp clean
      cases event with
      | fail e =>
          obtain rfl : e = .eintr := here
          exact ih later
      | data bytes =>
          by_cases fits : bytes.length ≤ count
          · refine ⟨bytes, rest, by simp [readAgain, read, fits], later, fits, rfl, ?_⟩
            intro empty
            exact absurd empty here
          · refine ⟨bytes.take count, .data (bytes.drop count) :: rest,
              by simp [readAgain, read, fits], clean_cons.mpr ⟨?_, later⟩,
              List.length_take_le _ _, ?_, ?_⟩
            · simp only [ReadEvent.Clean, ne_eq, List.drop_eq_nil_iff]
              omega
            · simp [bytesOf, ← List.append_assoc]
            · intro empty
              have : bytes ≠ [] := here
              simp_all

/-! ## Scripts with any events -/

/-- What is behind a script for a reader that calls again when it is interrupted. -/
inductive Item
  | byte (c : UInt8)
  | eof
  | error (code : Nat)
  deriving DecidableEq, Repr

def itemsOf : Script → List Item
  | [] => []
  | .fail .eintr :: rest => itemsOf rest
  | .fail (.other code) :: rest => .error code :: itemsOf rest
  | .data [] :: rest => .eof :: itemsOf rest
  | .data (b :: bytes) :: rest => (b :: bytes).map .byte ++ itemsOf rest

theorem itemsOf_data {bytes : List UInt8} (nonempty : bytes ≠ []) (rest : Script) :
    itemsOf (.data bytes :: rest) = bytes.map .byte ++ itemsOf rest := by
  obtain ⟨b, bytes, rfl⟩ := List.exists_cons_of_ne_nil nonempty
  rfl

theorem itemsOf_append (front back : Script) :
    itemsOf (front ++ back) = itemsOf front ++ itemsOf back := by
  induction front with
  | nil => rfl
  | cons event rest ih =>
      match event with
      | .fail .eintr => exact ih
      | .fail (.other code) => exact congrArg (.error code :: ·) ih
      | .data [] => exact congrArg (.eof :: ·) ih
      | .data (b :: bytes) =>
          rw [List.cons_append, itemsOf, itemsOf, ih, List.append_assoc]

def Item.bytes : Item → List UInt8
  | byte c => [c]
  | eof | error _ => []

theorem flatMap_bytes_map_byte (bytes : List UInt8) :
    (bytes.map .byte).flatMap Item.bytes = bytes := by
  induction bytes with
  | nil => rfl
  | cons b bytes ih => rw [List.map_cons, List.flatMap_cons, ih, Item.bytes, List.singleton_append]

theorem bytesOf_eq_flatMap (script : Script) :
    bytesOf script = (itemsOf script).flatMap Item.bytes := by
  induction script with
  | nil => rfl
  | cons event rest ih =>
      match event with
      | .fail .eintr => exact ih
      | .fail (.other code) => exact ih
      | .data [] => exact ih
      | .data (b :: bytes) =>
          rw [itemsOf, List.flatMap_append, flatMap_bytes_map_byte, ← ih, bytesOf]

theorem map_byte_inj {bytes bytes' : List UInt8} (h : bytes.map Item.byte = bytes'.map .byte) :
    bytes = bytes' :=
  (List.map_inj_right fun _ _ eq => Item.byte.inj eq).mp h

/-- No end of file and no failure stands among the bytes in front. -/
theorem marker_not_in_front {bytes front : List UInt8} {items items' : List Item} {x : Item}
    (marker : ∀ c, x ≠ .byte c) (short : bytes.length < front.length) :
    front.map .byte ++ items ≠ bytes.map .byte ++ x :: items' := by
  intro same
  have at_x := congrArg (fun l => l[bytes.length]?) same
  have inFront : bytes.length < (front.map Item.byte).length := by rwa [List.length_map]
  simp only [List.getElem?_append_left inFront, List.getElem?_map] at at_x
  rw [List.getElem?_append_right (by simp), List.length_map, Nat.sub_self,
    List.getElem?_cons_zero, List.getElem?_eq_getElem short] at at_x
  exact marker _ (Option.some.inj at_x).symm

/-- Calls fail only by interruption, and there may be ends of file on the way. -/
def FailureFree (script : Script) : Prop := ∀ code, .fail (.other code) ∉ script

theorem FailureFree.items {script : Script} (h : FailureFree script) (code : Nat) :
    .error code ∉ itemsOf script := by
  induction script with
  | nil => simp [itemsOf]
  | cons event rest ih =>
      have later : .error code ∉ itemsOf rest :=
        ih fun code mem => h code (List.mem_cons_of_mem _ mem)
      match event with
      | .fail .eintr => exact later
      | .fail (.other code') => exact absurd List.mem_cons_self (h code')
      | .data [] => simpa [itemsOf] using later
      | .data (b :: bytes) => simpa [itemsOf] using later

/-- Behind a clean script there are only bytes. -/
theorem itemsOf_clean {script : Script} (clean : Clean script) :
    itemsOf script = (bytesOf script).map .byte := by
  induction script with
  | nil => rfl
  | cons event rest ih =>
      obtain ⟨here, later⟩ := clean_cons.mp clean
      cases event with
      | fail e =>
          obtain rfl : e = .eintr := here
          exact ih later
      | data bytes => rw [itemsOf_data here, ih later, bytesOf, List.map_append]

/-- A result of `readAgain`, by the items that the call takes off the script. -/
inductive TakesItems (count : Nat) (script : Script) : Except Errno (List UInt8) × Script → Prop
  | exhausted (items : itemsOf script = []) : TakesItems count script (.ok [], [])
  | eof {rest : Script} (items : itemsOf script = .eof :: itemsOf rest) :
      TakesItems count script (.ok [], rest)
  | bytes {b : UInt8} {bytes : List UInt8} {rest : Script} (short : (b :: bytes).length ≤ count)
      (items : itemsOf script = (b :: bytes).map .byte ++ itemsOf rest) :
      TakesItems count script (.ok (b :: bytes), rest)
  | error {code : Nat} {rest : Script} (items : itemsOf script = .error code :: itemsOf rest) :
      TakesItems count script (.error (.other code), rest)

theorem readAgain_items {count : Nat} (room : 0 < count) (script : Script) :
    TakesItems count script (readAgain count script) := by
  induction script with
  | nil => exact .exhausted rfl
  | cons event rest ih =>
      match event with
      | .fail .eintr =>
          have again : itemsOf (.fail .eintr :: rest) = itemsOf rest := rfl
          rw [readAgain]
          generalize readAgain count rest = result at ih
          cases ih with
          | exhausted items => exact .exhausted (again.trans items)
          | eof items => exact .eof (again.trans items)
          | bytes short items => exact .bytes short (again.trans items)
          | error items => exact .error (again.trans items)
      | .fail (.other code) => exact .error rfl
      | .data [] => exact .eof rfl
      | .data (b :: bytes) =>
          by_cases fits : (b :: bytes).length ≤ count
          · have call : readAgain count (.data (b :: bytes) :: rest) = (.ok (b :: bytes), rest) :=
              if_pos fits
            rw [call]
            exact .bytes fits rfl
          · have call : readAgain count (.data (b :: bytes) :: rest) =
                (.ok ((b :: bytes).take count), .data ((b :: bytes).drop count) :: rest) :=
              if_neg fits
            have left : (b :: bytes).drop count ≠ [] := by
              rw [ne_eq, List.drop_eq_nil_iff]
              omega
            obtain ⟨count, rfl⟩ : ∃ n, count = n + 1 := ⟨count - 1, by omega⟩
            rw [call]
            refine .bytes (List.length_take_le (count + 1) (b :: bytes)) ?_
            rw [itemsOf_data left, ← List.append_assoc, ← List.map_append, ← List.take_succ_cons,
              List.take_append_drop]
            rfl

/-- An interrupted call takes no item. -/
theorem itemsOf_of_interrupted {count : Nat} {script rest : Script}
    (call : read count script = (.error .eintr, rest)) : itemsOf script = itemsOf rest := by
  match script with
  | [] => cases call
  | .fail e :: script =>
      cases call
      rfl
  | .data bytes :: script =>
      rw [read] at call
      split at call <;> cases call

theorem takesItems_of_read {count : Nat} {script rest : Script} {r : Except Errno (List UInt8)}
    (room : 0 < count) (call : read count script = (r, rest)) (done : r ≠ .error .eintr) :
    TakesItems count script (r, rest) := by
  have again := readAgain_items room script
  match script with
  | [] => exact call ▸ again
  | .fail .eintr :: script =>
      cases call
      exact absurd rfl done
  | .fail (.other code) :: script => exact call ▸ again
  | .data bytes :: script => exact call ▸ again

/-- A call that returns bytes takes items off the script. -/
theorem length_items_of_read {count : Nat} {script rest : Script} {b : UInt8} {bytes : List UInt8}
    (room : 0 < count) (call : read count script = (.ok (b :: bytes), rest)) :
    (itemsOf rest).length < (itemsOf script).length := by
  cases takesItems_of_read room call (by simp) with
  | bytes _ items =>
      rw [items, List.length_append, List.length_map, List.length_cons]
      omega

end Descriptor
