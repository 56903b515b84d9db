import UnixProgramming.FdPassing.Protocol

/-!
# Passing a descriptor from `send_fd` to `recv_fd`

The sender encodes success as status 0. The receiver leaves its loop on a status
greater than 0 only, where its `newfd` is a negated error status. So no sequence of
`recvmsg` results makes it return a descriptor.
-/

namespace UnixProgramming.FdPassing

open CMemory

/-- A positive status goes with a negative `newfd`. -/
def Locals.StatusIsError (l : Locals) : Prop := 0 < l.status → l.newfd < 0

/-- The parse stores descriptors with status 0 only, and returns no value itself. -/
theorem parse_spec (buf : Block) (fd : Option Int) (cmsgData : Int) (bound ptr : Nat)
    {l : Locals} (inv : l.StatusIsError) :
    (∃ l', parse buf fd cmsgData bound ptr l = .ok l' ∧ l'.StatusIsError) ∨
      parse buf fd cmsgData bound ptr l = .error .noValue ∨
      ∃ f, parse buf fd cmsgData bound ptr l = .error (.fault f) := by
  induction bound generalizing ptr l with
  | zero => exact .inl ⟨l, rfl, inv⟩
  | succ bound ih =>
      unfold parse
      split
      · split
        · exact .inr (.inr ⟨_, rfl⟩)
        · split
          · split
            · exact .inr (.inl rfl)
            · split
              · exact .inr (.inr ⟨_, rfl⟩)
              · rename_i status _
                split
                · split
                  · exact .inr (.inl rfl)
                  · exact ih (ptr + 1) (by simp [Locals.StatusIsError])
                · exact ih (ptr + 1) (by simp [Locals.StatusIsError])
          · exact ih (ptr + 1) inv
      · exact .inl ⟨l, rfl, inv⟩

/-- What the loop returns is negative: the failure value or a negated status. -/
theorem recvFdLoop_value_neg (userfunc : Block → Int) {malloc cmsghdr : Option Int} {buf : Block}
    {status newfd : Int} {passed : List Block} {overread : Bool} {results : List RecvResult}
    {v : Int} (inv : 0 < status → newfd < 0)
    (h : (recvFdLoop userfunc malloc cmsghdr buf status newfd passed overread results).outcome =
      .value v) : v < 0 := by
  induction results generalizing cmsghdr buf status newfd passed overread with
  | nil =>
      unfold recvFdLoop at h
      split at h
      · cases h
        decide
      · cases h
  | cons result results ih =>
      unfold recvFdLoop at h
      split at h
      · cases h
        decide
      · rename_i old _
        match result with
        | .fail => cases h
        | .data [] _ => cases h
        | .data (b :: bytes) fd =>
            have spec := parse_spec (fill buf (b :: bytes)) fd (fd.getD old) (b :: bytes).length 0
              (show Locals.StatusIsError ⟨status, newfd, (b :: bytes).length⟩ from inv)
            obtain ⟨l', parsed, inv'⟩ | stopped | ⟨f, stopped⟩ := spec
            · simp only [parsed] at h
              split at h
              · cases h
                decide
              · split at h
                · rename_i positive
                  cases h
                  exact inv' positive
                · exact ih inv' h
            · simp only [stopped] at h
              cases h
            · simp only [stopped] at h
              cases h

/-- `recv_fd` returns no descriptor, whatever it receives. -/
theorem recvFd_value_neg {userfunc : Block → Int} {cmsghdr malloc : Option Int} {newfd v : Int}
    {results : List RecvResult}
    (h : (recvFd userfunc cmsghdr malloc newfd results).outcome = .value v) : v < 0 :=
  recvFdLoop_value_neg userfunc (by omega) h

/-- A message with a descriptor is two zero bytes and the descriptor. -/
theorem message_of_sendFd {cmsghdr malloc sent : Option Int} {d : Int} {message : Message}
    (valid : 0 ≤ d) (send : sendFd cmsghdr malloc d 2 = (0, some message, sent)) :
    message = ⟨[0, 0], some d⟩ := by
  rw [sendFd, if_neg (by omega)] at send
  split at send
  · simp at send
  · simpa using (congrArg (·.2.1) send).symm

/-- The results of `recvmsg` for a message that arrives in the given chunks. Its ancillary
data comes with the first byte, as the descriptor `fd` that the kernel opened for it. -/
def delivered (message : Message) (fd : Int) : List (List UInt8) → List RecvResult
  | [] => []
  | chunk :: chunks => .data chunk (message.fd.map fun _ => fd) :: chunks.map (.data · none)

/-- The chunks cut the bytes into results that fit into the receive buffer. -/
def Cuts (chunks : List (List UInt8)) (bytes : List UInt8) : Prop :=
  chunks.flatten = bytes ∧ ∀ chunk ∈ chunks, chunk ≠ [] ∧ chunk.length ≤ MAXLINE

instance (chunks : List (List UInt8)) (bytes : List UInt8) : Decidable (Cuts chunks bytes) :=
  inferInstanceAs (Decidable (_ ∧ _))

/-- The buffer holds one byte, so a message arrives byte by byte. -/
theorem Cuts.first {chunks : List (List UInt8)} {b : UInt8} {bytes : List UInt8}
    (cuts : Cuts chunks (b :: bytes)) : ∃ rest, chunks = [b] :: rest := by
  obtain ⟨flat, sizes⟩ := cuts
  cases chunks with
  | nil => simp at flat
  | cons chunk rest =>
      obtain ⟨nonempty, short⟩ := sizes chunk (by simp)
      match chunk with
      | [] => exact absurd rfl nonempty
      | [c] =>
          obtain ⟨rfl, -⟩ : c = b ∧ _ := by simpa using flat
          exact ⟨rest, rfl⟩
      | _ :: _ :: _ => simp [MAXLINE] at short

theorem Cuts.tail {chunks : List (List UInt8)} {b : UInt8} {bytes : List UInt8}
    (cuts : Cuts ([b] :: chunks) (b :: bytes)) : Cuts chunks bytes :=
  ⟨(List.cons.inj cuts.1).2, fun chunk mem => cuts.2 chunk (List.mem_cons_of_mem _ mem)⟩

/-- A NUL that fills the one-byte buffer is not the last byte but one of any message. -/
theorem recvFd_formatError (userfunc : Block → Int) {cmsghdr malloc : Option Int} (newfd : Int)
    (alloc : allocCmsghdr cmsghdr malloc ≠ none) (fd : Option Int) (results : List RecvResult) :
    recvFd userfunc cmsghdr malloc newfd (.data [0] fd :: results) = ⟨.noValue, [], true⟩ := by
  obtain ⟨old, some⟩ := Option.ne_none_iff_exists'.mp alloc
  have outside : buffPrint [0] = .error (.outOfBounds 1) := rfl
  simp [recvFd, recvFdLoop, some, parse, fill, load, MAXLINE, outside, Except.isOk, Except.toBool]

/-- The receiver returns the descriptor that the kernel delivered, passes no byte to the
callback and ends before any further result. -/
def ReturnsDescriptor (run : RecvRun) (fd : Int) : Prop :=
  run.outcome = .value fd ∧ run.passed = []

/-- A descriptor that was sent never comes back from `recv_fd`: the first protocol byte is
reported as a format error, and the function ends without a value. By then it has printed bytes
from behind the end of its buffer. -/
theorem descriptor_lost {userfunc : Block → Int} {cmsghdr malloc cmsghdr' malloc' : Option Int}
    {d fd uninit : Int} {message : Message} {sent : Option Int} {chunks : List (List UInt8)}
    (valid : 0 ≤ d) (send : sendFd cmsghdr' malloc' d 2 = (0, some message, sent))
    (cuts : Cuts chunks message.bytes) (opened : 0 ≤ fd) :
    ¬ ReturnsDescriptor (recvFd userfunc cmsghdr malloc uninit (delivered message fd chunks)) fd ∧
      (allocCmsghdr cmsghdr malloc ≠ none →
        recvFd userfunc cmsghdr malloc uninit (delivered message fd chunks) =
          ⟨.noValue, [], true⟩) := by
  constructor
  · intro returns
    have negative : fd < 0 := recvFd_value_neg returns.1
    omega
  · intro alloc
    obtain rfl := message_of_sendFd valid send
    obtain ⟨rest, rfl⟩ := cuts.first
    exact recvFd_formatError userfunc uninit alloc (some fd) _

/-- Descriptor 5 is sent, opened as 7 and received byte by byte. -/
theorem descriptor_lost_five :
    ¬ ReturnsDescriptor (recvFd (fun b => b.length) none (some 0) 0
      (delivered ⟨[0, 0], some 5⟩ 7 [[0], [0]])) 7 ∧
    (allocCmsghdr none (some 0) ≠ none →
      recvFd (fun b => b.length) none (some 0) 0 (delivered ⟨[0, 0], some 5⟩ 7 [[0], [0]]) =
        ⟨.noValue, [], true⟩) :=
  descriptor_lost (by decide : (0 : Int) ≤ 5)
    (rfl : sendFd none (some 0) 5 2 = (0, some ⟨[0, 0], some 5⟩, some 5)) (by decide) (by decide)

/-- The one cut of that message fits the buffer, and its receiver does not return 7. -/
theorem five_not_returned :
    sendFd none (some 0) 5 2 = (0, some ⟨[0, 0], some 5⟩, some 5) ∧
      Cuts [[0], [0]] [0, 0] ∧
      ¬ ReturnsDescriptor (recvFd (fun b => b.length) none (some 0) 0
        (delivered ⟨[0, 0], some 5⟩ 7 [[0], [0]])) 7 :=
  ⟨rfl, by decide, by simp [ReturnsDescriptor]; decide⟩

end UnixProgramming.FdPassing
