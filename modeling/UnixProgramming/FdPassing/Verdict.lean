import UnixProgramming.FdPassing.RoundTrip

/-!
# What `recv_fd` accepts and rejects

One result of `recvmsg` is parsed by its own bytes alone, whatever the buffer holds
behind them. A result that is no part of a message is rejected through `err_ret`, which
leaves the function before its `return (-1)`. All that is about the parse. A line in front of it
prints `buf[1]` and `buf[2]`, and there are no such bytes.
-/

namespace UnixProgramming.FdPassing

open CMemory

/-! ## One result -/

/-- What a result says, apart from the buffer in which it is parsed: more text, a status
byte behind its only NUL, or a format error. -/
def verdict (chunk : Block) (fd : Option Int) (cmsgData : Int) (l : Locals) :
    Except Outcome Locals :=
  match chunk.drop (strlen chunk) with
  | [] => .ok l
  | [_, status] =>
      if status ≠ 0 then .ok ⟨status.toNat, -status.toNat, strlen chunk⟩
      else if fd = none then .error .noValue
      else .ok ⟨0, cmsgData, strlen chunk⟩
  | _ => .error .noValue

theorem verdict_plain {chunk : Block} (plain : 0 ∉ chunk) (fd : Option Int) (cmsgData : Int)
    (l : Locals) : verdict chunk fd cmsgData l = .ok l := by
  rw [verdict, strlen, cString_of_notMem plain, List.drop_length]

theorem verdict_nul {text : Block} (plain : 0 ∉ text) (back : Block) (fd : Option Int)
    (cmsgData : Int) (l : Locals) :
    verdict (text ++ 0 :: back) fd cmsgData l =
      match back with
      | [status] =>
          if status ≠ 0 then .ok ⟨status.toNat, -status.toNat, text.length⟩
          else if fd = none then .error .noValue
          else .ok ⟨0, cmsgData, text.length⟩
      | _ => .error .noValue := by
  rw [verdict, strlen_append_nul plain, List.drop_left]
  match back with
  | [] => rfl
  | [status] => rfl
  | _ :: _ :: _ => rfl

/-- The pointer runs over the text. -/
theorem parse_text {front text back : Block} (plain : 0 ∉ text) (fd : Option Int) (cmsgData : Int)
    (bound : Nat) {l : Locals} (inside : ((front.length + text.length : Nat) : Int) ≤ l.nr) :
    parse (front ++ (text ++ back)) fd cmsgData (text.length + bound) front.length l =
      parse (front ++ (text ++ back)) fd cmsgData bound (front.length + text.length) l := by
  induction text generalizing front with
  | nil => simp
  | cons c text ih =>
      have here : load (front ++ (c :: text ++ back)) front.length = .ok c :=
        load_append_cons front _ c
      have nonzero : c ≠ 0 := fun nul => plain (nul ▸ List.mem_cons_self)
      have more : (front.length : Int) < l.nr := by
        simp only [List.length_cons] at inside
        omega
      have regroup : front ++ (c :: text ++ back) = front ++ [c] ++ (text ++ back) := by simp
      have rest := @ih (front ++ [c]) (fun mem => plain (List.mem_cons_of_mem c mem))
        (by simp only [List.length_append, List.length_cons, List.length_nil] at inside ⊢; omega)
      rw [List.length_cons, Nat.add_right_comm, parse, if_pos more, here]
      dsimp only
      rw [if_neg nonzero, regroup]
      simpa [Nat.add_assoc, Nat.add_comm 1] using rest

/-- Behind the text, the NUL decides. -/
theorem parse_nul (text back : Block) (fd : Option Int) (cmsgData : Int) (bound : Nat) {l : Locals}
    (inside : (text.length : Int) < l.nr) :
    parse (text ++ 0 :: back) fd cmsgData (bound + 1) text.length l =
      if ((text.length + 1 : Nat) : Int) ≠ l.nr - 1 then .error .noValue
      else
        match load (text ++ 0 :: back) (text.length + 1) with
        | .error f => .error (.fault f)
        | .ok status =>
            if status = 0 then
              if fd = none then .error .noValue
              else parse (text ++ 0 :: back) fd cmsgData bound (text.length + 1)
                ⟨0, cmsgData, l.nr - 2⟩
            else parse (text ++ 0 :: back) fd cmsgData bound (text.length + 1)
              ⟨status.toNat, -status.toNat, l.nr - 2⟩ := by
  rw [parse, if_pos inside, load_append_cons]
  rfl

/-- The parse of a result does not depend on what is behind it in the buffer. -/
theorem parse_eq_verdict {chunk : Block} (stale : Block) (fd : Option Int) (cmsgData : Int)
    {l : Locals} (whole : l.nr = chunk.length) :
    parse (chunk ++ stale) fd cmsgData chunk.length 0 l = verdict chunk fd cmsgData l := by
  by_cases nul : 0 ∈ chunk
  · obtain ⟨text, back, rfl, plain⟩ := List.eq_append_cons_of_mem nul
    have size : (text ++ 0 :: back).length = text.length + (back.length + 1) := by simp
    rw [size] at whole ⊢
    have skip := @parse_text [] text (0 :: (back ++ stale)) plain fd cmsgData (back.length + 1) l
      (by rw [List.length_nil]; omega)
    simp only [List.nil_append, List.length_nil, Nat.zero_add] at skip
    rw [verdict_nul plain, List.append_assoc, List.cons_append, skip,
      parse_nul text (back ++ stale) fd cmsgData back.length (by omega)]
    match back with
    | [] => exact if_pos (by simp only [List.length_nil] at whole; omega)
    | [status'] =>
        have last : load (text ++ 0 :: ([status'] ++ stale)) (text.length + 1) = .ok status' := by
          simp [load]
        have left : l.nr - 2 = text.length := by
          simp only [List.length_singleton] at whole
          omega
        -- the pointer is behind what is left of the text
        have stop (status newfd : Int) : parse (text ++ 0 :: ([status'] ++ stale)) fd cmsgData 1
            (text.length + 1) ⟨status, newfd, text.length⟩ = .ok ⟨status, newfd, text.length⟩ := by
          rw [parse, if_neg (by dsimp only; omega)]
        rw [if_neg (by omega), last, left]
        by_cases zero : status' = 0
        · by_cases none : fd = none
          · simp [zero, none]
          · simp only [zero] at stop ⊢
            simpa [none] using stop 0 cmsgData
        · simpa [zero] using stop status'.toNat (-status'.toNat)
    | _ :: _ :: _ => exact if_pos (by simp only [List.length_cons] at whole; omega)
  · have skip := @parse_text [] chunk stale nul fd cmsgData 0 l
      (by rw [List.length_nil]; omega)
    simp only [List.nil_append, List.length_nil, Nat.zero_add, Nat.add_zero] at skip
    rw [skip, verdict_plain nul, parse]

/-! ## The loop -/

section Loop

variable {userfunc : Block → Int} {malloc cmsghdr : Option Int} {status : Int} {overread : Bool}

/-- One iteration goes by the verdict on its result. -/
theorem recvFdLoop_data {chunk : Block} {old : Int} (fd : Option Int) (buf : Block)
    (status newfd : Int) (passed : List Block) (overread : Bool) (results : List RecvResult)
    (nonempty : chunk ≠ []) (alloc : allocCmsghdr cmsghdr malloc = some old) :
    recvFdLoop userfunc malloc cmsghdr buf status newfd passed overread
        (.data chunk fd :: results) =
      let overread := overread || !(buffPrint (fill buf chunk)).isOk
      match verdict chunk fd (fd.getD old) ⟨status, newfd, chunk.length⟩ with
      | .error outcome => ⟨outcome, passed, overread⟩
      | .ok l =>
          let text := (fill buf chunk).take l.nr.toNat
          if 0 < l.nr ∧ userfunc text ≠ l.nr then ⟨.value (-1), passed ++ [text], overread⟩
          else
            let passed := if 0 < l.nr then passed ++ [text] else passed
            if 0 < l.status then ⟨.value l.newfd, passed, overread⟩
            else
              recvFdLoop userfunc malloc (some (fd.getD old)) (fill buf chunk) l.status l.newfd
                passed overread results := by
  obtain ⟨b, bytes, rfl⟩ := List.exists_cons_of_ne_nil nonempty
  have parsed := @parse_eq_verdict (b :: bytes) (buf.drop (b :: bytes).length) fd (fd.getD old)
    ⟨status, newfd, (b :: bytes).length⟩ rfl
  rw [recvFdLoop, alloc, ← parsed]
  rfl

/-- A result that is rejected ends the call without a value. -/
theorem recvFdLoop_reject {chunk : Block} {fd : Option Int} (buf : Block) (status newfd : Int)
    (passed : List Block) (results : List RecvResult) (nonempty : chunk ≠ [])
    (alloc : allocCmsghdr cmsghdr malloc ≠ none)
    (reject : ∀ cmsgData l, verdict chunk fd cmsgData l = .error .noValue) :
    ∃ overread', recvFdLoop userfunc malloc cmsghdr buf status newfd passed overread
      (.data chunk fd :: results) = ⟨.noValue, passed, overread'⟩ := by
  obtain ⟨old, some⟩ := Option.ne_none_iff_exists'.mp alloc
  rw [recvFdLoop_data fd buf status newfd passed overread results nonempty some, reject]
  exact ⟨_, rfl⟩

/-- Text goes to the callback, which has to consume all of it. -/
theorem recvFdLoop_text {text : Block} {fd : Option Int} (buf : Block) (newfd : Int)
    (passed : List Block) (results : List RecvResult) (nonempty : text ≠ [])
    (alloc : allocCmsghdr cmsghdr malloc ≠ none) (plain : 0 ∉ text) (waiting : status ≤ 0) :
    ∃ cmsghdr' overread', allocCmsghdr cmsghdr' malloc ≠ none ∧
      recvFdLoop userfunc malloc cmsghdr buf status newfd passed overread
          (.data text fd :: results) =
        if userfunc text = text.length then
          recvFdLoop userfunc malloc cmsghdr' (fill buf text) status newfd (passed ++ [text])
            overread' results
        else ⟨.value (-1), passed ++ [text], overread'⟩ := by
  obtain ⟨old, some⟩ := Option.ne_none_iff_exists'.mp alloc
  have front : (fill buf text).take (text.length : Int).toNat = text := take_fill buf text
  have some_text : (0 : Int) < text.length :=
    Int.natCast_pos.mpr (List.length_pos_iff.mpr nonempty)
  refine ⟨.some (fd.getD old), overread || !(buffPrint (fill buf text)).isOk,
    by simp [allocCmsghdr], ?_⟩
  rw [recvFdLoop_data fd buf status newfd passed overread results nonempty some,
    verdict_plain plain]
  dsimp only
  rw [front]
  by_cases consumed : userfunc text = text.length
  · rw [if_neg fun stop => stop.2 consumed, if_pos some_text, if_neg (Int.not_lt.mpr waiting),
      if_pos consumed]
  · rw [if_pos ⟨some_text, consumed⟩, if_neg consumed]

/-- A stream in which a result is no part of a message: a failed `recvmsg`, the end of the
connection, a NUL that is not the last byte but one, or status 0 without a descriptor. All
results in front of it are text that the callback consumes. -/
inductive Malformed (userfunc : Block → Int) : List RecvResult → Prop
  | failed (results : List RecvResult) : Malformed userfunc (.fail :: results)
  | closed (fd : Option Int) (results : List RecvResult) :
      Malformed userfunc (.data [] fd :: results)
  | misplaced {text back : Block} (fd : Option Int) (results : List RecvResult) (plain : 0 ∉ text)
      (place : back.length ≠ 1) : Malformed userfunc (.data (text ++ 0 :: back) fd :: results)
  | noDescriptor {text : Block} (results : List RecvResult) (plain : 0 ∉ text) :
      Malformed userfunc (.data (text ++ [0, 0]) none :: results)
  | text {text : Block} (fd : Option Int) {results : List RecvResult} (plain : 0 ∉ text)
      (nonempty : text ≠ []) (consumed : userfunc text = text.length)
      (later : Malformed userfunc results) : Malformed userfunc (.data text fd :: results)

theorem Malformed.anyCallback {results : List RecvResult} (h : Malformed userfunc results) :
    Malformed (fun b => b.length) results := by
  induction h with
  | failed results => exact .failed results
  | closed fd results => exact .closed fd results
  | misplaced fd results plain place => exact .misplaced fd results plain place
  | noDescriptor results plain => exact .noDescriptor results plain
  | text fd plain nonempty _ _ ih => exact .text fd plain nonempty rfl ih

theorem verdict_misplaced {text back : Block} (plain : 0 ∉ text) (place : back.length ≠ 1)
    (fd : Option Int) (cmsgData : Int) (l : Locals) :
    verdict (text ++ 0 :: back) fd cmsgData l = .error .noValue := by
  rw [verdict_nul plain]
  match back with
  | [] => rfl
  | [_] => exact absurd rfl place
  | _ :: _ :: _ => rfl

/-- `recv_fd` returns no value on a malformed stream. -/
theorem recvFdLoop_malformed {results : List RecvResult} (buf : Block) (newfd : Int)
    (passed : List Block) (alloc : allocCmsghdr cmsghdr malloc ≠ none) (waiting : status ≤ 0)
    (malformed : Malformed userfunc results) :
    (recvFdLoop userfunc malloc cmsghdr buf status newfd passed overread results).outcome =
      .noValue := by
  induction malformed generalizing cmsghdr buf passed overread with
  | failed results =>
      obtain ⟨old, some⟩ := Option.ne_none_iff_exists'.mp alloc
      rw [recvFdLoop, some]
  | closed fd results =>
      obtain ⟨old, some⟩ := Option.ne_none_iff_exists'.mp alloc
      rw [recvFdLoop, some]
  | misplaced fd results plain place =>
      obtain ⟨_, run⟩ := @recvFdLoop_reject userfunc malloc cmsghdr overread _ fd buf status newfd
        passed results (by simp) alloc (verdict_misplaced plain place fd)
      rw [run]
  | noDescriptor results plain =>
      obtain ⟨_, run⟩ := @recvFdLoop_reject userfunc malloc cmsghdr overread _ none buf status newfd
        passed results (by simp) alloc (fun cmsgData l => verdict_nul plain [0] none cmsgData l)
      rw [run]
  | text fd plain nonempty consumed later ih =>
      obtain ⟨cmsghdr', overread', alloc', step⟩ :=
        recvFdLoop_text buf newfd passed _ nonempty alloc plain waiting
      rw [step, if_pos consumed]
      exact ih _ _ alloc'

/-- A malformed stream is rejected with -1 if the callback fails in front of the defect. -/
theorem recvFdLoop_callback {results : List RecvResult} (buf : Block) (newfd : Int)
    (passed : List Block) (alloc : allocCmsghdr cmsghdr malloc ≠ none) (waiting : status ≤ 0)
    (malformed : Malformed (fun b => b.length) results) (stopped : ¬ Malformed userfunc results) :
    (recvFdLoop userfunc malloc cmsghdr buf status newfd passed overread results).outcome =
      .value (-1) := by
  induction malformed generalizing cmsghdr buf passed overread with
  | failed results => exact absurd (.failed results) stopped
  | closed fd results => exact absurd (.closed fd results) stopped
  | misplaced fd results plain place => exact absurd (.misplaced fd results plain place) stopped
  | noDescriptor results plain => exact absurd (.noDescriptor results plain) stopped
  | @text text fd results plain nonempty _ later ih =>
      obtain ⟨cmsghdr', overread', alloc', step⟩ :=
        @recvFdLoop_text userfunc malloc cmsghdr status overread text fd buf newfd passed results
          nonempty alloc plain waiting
      rw [step]
      split
      · rename_i consumed
        exact ih _ _ alloc' fun later => stopped (.text fd plain nonempty consumed later)
      · rfl

end Loop

theorem recvFd_unallocated {userfunc : Block → Int} {cmsghdr malloc : Option Int} (newfd : Int)
    (results : List RecvResult) (alloc : allocCmsghdr cmsghdr malloc = none) :
    recvFd userfunc cmsghdr malloc newfd results = ⟨.value (-1), [], false⟩ := by
  unfold recvFd recvFdLoop
  simp [alloc]

/-- A line that has printed bytes from behind the end of `buf` is not forgotten. -/
theorem recvFdLoop_overread (userfunc : Block → Int) {malloc cmsghdr : Option Int} {buf : Block}
    {status newfd : Int} {passed : List Block} (results : List RecvResult) :
    (recvFdLoop userfunc malloc cmsghdr buf status newfd passed true results).overread = true := by
  induction results generalizing cmsghdr buf status newfd passed with
  | nil =>
      unfold recvFdLoop
      split <;> rfl
  | cons result results ih =>
      unfold recvFdLoop
      split
      · rfl
      · match result with
        | .fail => rfl
        | .data [] _ => rfl
        | .data (_ :: _) _ =>
            dsimp only
            split
            · rfl
            · split
              · rfl
              · split
                · rfl
                · exact ih

/-- The line prints three bytes of a buffer that has one. -/
theorem recvFd_overread {userfunc : Block → Int} {cmsghdr malloc : Option Int} (newfd : Int)
    {bytes : Block} (fd : Option Int) (results : List RecvResult) (nonempty : bytes ≠ [])
    (fits : bytes.length ≤ MAXLINE) (alloc : allocCmsghdr cmsghdr malloc ≠ none) :
    (recvFd userfunc cmsghdr malloc newfd (.data bytes fd :: results)).overread = true := by
  obtain ⟨b, rfl⟩ : ∃ b, bytes = [b] := by
    have one := Nat.le_antisymm fits (List.length_pos_iff.mpr nonempty)
    exact List.length_eq_one_iff.mp one
  have outside : (false || !(buffPrint (fill (List.replicate MAXLINE 128) [b])).isOk) = true := rfl
  obtain ⟨old, some⟩ := Option.ne_none_iff_exists'.mp alloc
  rw [recvFd, recvFdLoop_data fd _ _ newfd [] false results nonempty some, outside]
  dsimp only
  split
  · rfl
  · split
    · rfl
    · split
      · rfl
      · exact recvFdLoop_overread userfunc results

/-- Descriptors come out of well-formed messages only, malformed streams give a negative
value, and no result is parsed by bytes behind it. -/
structure Parses (userfunc : Block → Int) (cmsghdr malloc : Option Int) (newfd : Int)
    (results : List RecvResult) : Prop where
  descriptor : ∀ v, (recvFd userfunc cmsghdr malloc newfd results).outcome = .value v → 0 ≤ v →
    ∃ front text rest, results = front ++ .data (text ++ [0, 0]) (some v) :: rest ∧ 0 ∉ text ∧
      ∀ result ∈ front, ∃ bytes fd, result = .data bytes fd ∧ bytes ≠ [] ∧ 0 ∉ bytes
  rejects : Malformed (fun b => b.length) results →
    ∃ v, (recvFd userfunc cmsghdr malloc newfd results).outcome = .value v ∧ v < 0
  inside : ∀ (chunk stale stale' : Block) (fd : Option Int) (cmsgData status newfd : Int),
    parse (chunk ++ stale) fd cmsgData chunk.length 0 ⟨status, newfd, chunk.length⟩ =
      parse (chunk ++ stale') fd cmsgData chunk.length 0 ⟨status, newfd, chunk.length⟩

/-- All of this holds exactly if the receiver has no memory for a control buffer, or no
malformed result comes up to where the callback stops it. -/
theorem recvFd_parses_iff (userfunc : Block → Int) (cmsghdr malloc : Option Int) (newfd : Int)
    (results : List RecvResult) :
    Parses userfunc cmsghdr malloc newfd results ↔
      allocCmsghdr cmsghdr malloc = none ∨ ¬ Malformed userfunc results := by
  constructor
  · intro sound
    by_contra bad
    obtain ⟨alloc, malformed⟩ := not_or.mp bad
    rw [not_not] at malformed
    have noValue : (recvFd userfunc cmsghdr malloc newfd results).outcome = .noValue :=
      recvFdLoop_malformed (List.replicate MAXLINE 128) newfd [] alloc (by decide) malformed
    obtain ⟨v, returned, -⟩ := sound.rejects malformed.anyCallback
    rw [noValue] at returned
    cases returned
  · intro condition
    refine ⟨?_, ?_, ?_⟩
    · intro v returned nonneg
      exact absurd nonneg (Int.not_le.mpr (recvFd_value_neg returned))
    · intro malformed
      by_cases alloc : allocCmsghdr cmsghdr malloc = none
      · exact ⟨-1, by rw [recvFd_unallocated newfd results alloc], by decide⟩
      · exact ⟨-1, recvFdLoop_callback (List.replicate MAXLINE 128) newfd [] alloc
          (by decide : (-1 : Int) ≤ 0) malformed (condition.resolve_left alloc), by decide⟩
    · intro chunk stale stale' fd cmsgData status newfd
      rw [parse_eq_verdict stale fd cmsgData rfl, parse_eq_verdict stale' fd cmsgData rfl]

/-- The parse is right, and nothing is read behind the end of `buf` next to it. -/
structure Sound (userfunc : Block → Int) (cmsghdr malloc : Option Int) (newfd : Int)
    (results : List RecvResult) : Prop
    extends Parses userfunc cmsghdr malloc newfd results where
  inBuf : (recvFd userfunc cmsghdr malloc newfd results).overread = false

/-- A result of `recvmsg` fits into the buffer that it is told of. So there is no call that gets
something and is sound. -/
theorem recvFd_sound_iff (userfunc : Block → Int) (cmsghdr malloc : Option Int) (newfd : Int)
    {results : List RecvResult}
    (fits : ∀ bytes fd, .data bytes fd ∈ results → bytes.length ≤ MAXLINE) :
    Sound userfunc cmsghdr malloc newfd results ↔
      allocCmsghdr cmsghdr malloc = none ∨ results = [] := by
  have parses := recvFd_parses_iff userfunc cmsghdr malloc newfd results
  by_cases alloc : allocCmsghdr cmsghdr malloc = none
  · refine iff_of_true ⟨parses.mpr (.inl alloc), ?_⟩ (.inl alloc)
    rw [recvFd_unallocated newfd results alloc]
  · rw [or_iff_right alloc] at parses ⊢
    cases results with
    | nil =>
        have nothing : ¬ Malformed userfunc [] := by
          intro malformed
          cases malformed
        refine iff_of_true ⟨parses.mpr nothing, ?_⟩ rfl
        obtain ⟨old, some⟩ := Option.ne_none_iff_exists'.mp alloc
        rw [recvFd, recvFdLoop, some]
    | cons result rest =>
        refine iff_of_false (fun sound => ?_) (List.cons_ne_nil result rest)
        have wellFormed := parses.mp sound.toParses
        cases result with
        | fail => exact wellFormed (.failed rest)
        | data bytes fd =>
            by_cases closed : bytes = []
            · subst closed
              exact wellFormed (.closed fd rest)
            · have overread := @recvFd_overread userfunc cmsghdr malloc newfd bytes fd rest closed
                (fits _ fd List.mem_cons_self) alloc
              rw [sound.inBuf] at overread
              cases overread

/-- Nothing comes. -/
theorem recvFd_sound_nothing : Sound (fun b => b.length) none (some 0) 0 [] :=
  (recvFd_sound_iff _ _ _ 0 (fun _ _ mem => absurd mem List.not_mem_nil)).mpr (.inr rfl)

/-- The peer closes the connection in front of a message, and the call ends without a value. -/
theorem closed_not_rejected :
    (recvFd (fun b => b.length) none (some 0) 0 [.data [] none]).outcome = .noValue ∧
      ¬ Sound (fun b => b.length) none (some 0) 0 [.data [] none] := by
  have noValue : (recvFd (fun b => b.length) none (some 0) 0 [.data [] none]).outcome =
      .noValue := rfl
  refine ⟨noValue, fun sound => ?_⟩
  obtain ⟨v, returned, -⟩ := sound.rejects (.closed none [])
  rw [noValue] at returned
  cases returned

end UnixProgramming.FdPassing
