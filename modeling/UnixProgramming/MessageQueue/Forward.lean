import UnixProgramming.Library.CString
import UnixProgramming.Library.ReadText
import UnixProgramming.Library.Transition
import Mathlib.Logic.Function.Basic

/-!
# `ch17_IPC/ipc_test.c`: message queues that can be polled

A helper thread for each queue takes its messages and writes them to a datagram socket, whose
other end the main thread polls. Any process may put messages on a queue, the send program of the
repository among them. The main thread reads a datagram into an array of `MAXMSZ` bytes and puts
a NUL behind it.
-/

namespace UnixProgramming.MessageQueue

open CMemory Fallible Transition

def NQ : Nat := 3

def MAXMSZ : Nat := 512

/-- `socketpair_send_test`: the message for its second argument. -/
def sendTest (arg : Block) : Except Fault Block := do
  -- `memset(&m, 0, sizeof(m))`
  let data ← strncpy (List.replicate MAXMSZ 0) 0 arg (MAXMSZ - 1)
  return data.take (strlen data)

/-- The main thread. It returns when `poll` fails. The helpers go on even then, although the
array with their arguments was in its frame. -/
inductive Pc
  | poll
  | scan (i : Nat)
  | returned
  | undefined
  deriving DecidableEq

/-- The queues, what each helper holds between its two calls, the sockets, and the variables of
the main thread. `sent`, `taken` and `printed` record what has been put on each queue, what has
been read from its socket and what has been printed for it. -/
structure State where
  queue : Fin NQ → List Block
  held : Fin NQ → Option Block
  sock : Fin NQ → List Block
  pc : Pc
  revents : Fin NQ → Bool
  buf : Block
  sent : Fin NQ → List Block
  taken : Fin NQ → List Block
  printed : Fin NQ → List Block

inductive Action
  | send (i : Fin NQ) (arg : Block)
  | msgsnd (i : Fin NQ) (bytes : Block)
  | msgrcv (i : Fin NQ)
  | msgrcvFails (i : Fin NQ)
  | write (i : Fin NQ)
  | writeFails (i : Fin NQ)
  | poll
  | pollFails
  | read
  | readFails
  | pass
  | endScan
  deriving DecidableEq

namespace State

def init (buf : Vector UInt8 MAXMSZ) : State where
  queue := fun _ => []
  held := fun _ => none
  sock := fun _ => []
  pc := .poll
  revents := fun _ => false
  buf := buf.toList
  sent := fun _ => []
  taken := fun _ => []
  printed := fun _ => []

/-- The slot of the scan, while it is in the array. -/
def current (s : State) : Option (Fin NQ) :=
  match s.pc with
  | .scan i => if inside : i < NQ then some ⟨i, inside⟩ else none
  | .poll | .returned | .undefined => none

def put (s : State) (i : Fin NQ) (bytes : Block) : State :=
  { s with
    queue := Function.update s.queue i (s.queue i ++ [bytes])
    sent := Function.update s.sent i (s.sent i ++ [bytes]) }

def next (s : State) (i : Fin NQ) : State := { s with pc := .scan (i + 1) }

def send (s : State) (i : Fin NQ) (arg : Block) : Option State :=
  match sendTest arg with
  | .ok bytes => if 0 ∈ arg then none else some (s.put i bytes)
  | .error _ => none

/-- With `MSG_NOERROR` the rest of a longer message is cut off. -/
def msgrcv (s : State) (i : Fin NQ) : Option State :=
  match s.queue i, s.held i with
  | bytes :: queue, none =>
      some { s with
        queue := Function.update s.queue i queue
        held := Function.update s.held i (some (bytes.take MAXMSZ)) }
  | _, _ => none

def write (s : State) (i : Fin NQ) : Option State :=
  match s.held i with
  | some bytes =>
      some { s with
        held := Function.update s.held i none
        sock := Function.update s.sock i (s.sock i ++ [bytes]) }
  | none => none

/-- The body of the scan for a slot that has been reported. -/
def read (s : State) (i : Fin NQ) : Option State :=
  match s.revents i, s.sock i with
  | true, datagram :: sock =>
      match readText s.buf datagram with
      | .ok buf =>
          some { s.next i with
            buf := buf
            sock := Function.update s.sock i sock
            taken := Function.update s.taken i (s.taken i ++ [datagram])
            printed := Function.update s.printed i (s.printed i ++ [cString buf]) }
      | .error _ => some { s with pc := .undefined }
  | _, _ => none

def step (s : State) : Action → Option State
  | .send i arg => s.send i arg
  | .msgsnd i bytes => some (s.put i bytes)
  | .msgrcv i => s.msgrcv i
  -- err_sys goes on with `write(fd, m.data, -1)`
  | .msgrcvFails i => if s.held i = none then some { s with pc := .undefined } else none
  | .write i => s.write i
  | .writeFails i =>
      if s.held i ≠ none then some { s with held := Function.update s.held i none } else none
  | .poll =>
      if s.pc = .poll ∧ ∃ i, s.sock i ≠ [] then
        some { s with revents := fun i => !(s.sock i).isEmpty, pc := .scan 0 }
      else none
  | .pollFails => if s.pc = .poll then some { s with pc := .returned } else none
  | .read => s.current.bind s.read
  -- `buf[-1] = 0`
  | .readFails =>
      s.current.bind fun i =>
        if s.revents i = true then some { s with pc := .undefined } else none
  | .pass => s.current.bind fun i => if s.revents i = false then some (s.next i) else none
  | .endScan => if s.pc = .scan NQ then some { s with pc := .poll } else none

end State

def Step (s : State) (act : Action) (s' : State) : Prop := s.step act = some s'

/-! ## One message -/

/-- The text of a message that is sent is its argument, up to `MAXMSZ - 1` bytes. -/
theorem sendTest_eq {arg : Block} (plain : 0 ∉ arg) :
    sendTest arg = .ok (arg.take (MAXMSZ - 1)) := by
  have room : MAXMSZ - 1 ≤ (List.replicate MAXMSZ (0 : UInt8)).length := by
    rw [List.length_replicate]
    exact Nat.sub_le _ _
  have behind : (List.replicate MAXMSZ (0 : UInt8)).drop (MAXMSZ - 1) = [0] := by
    rw [List.drop_replicate]
    rfl
  have text : cString (padded arg (MAXMSZ - 1) ++ [0]) = arg.take (MAXMSZ - 1) := by
    rw [cString_append_nul, cString_padded plain]
  rw [sendTest, strncpy_zero room, behind, ok_bind, take_strlen, text]
  rfl

/-! ## What becomes of the messages -/

/-- What the helper takes of a message. -/
def cut (bytes : Block) : Block := bytes.take MAXMSZ

/-- The messages of queue `i` in the order in which they were sent, by where they are. -/
def State.messages (s : State) (i : Fin NQ) : List Block :=
  s.taken i ++ s.sock i ++ (s.held i).toList ++ (s.queue i).map cut

structure Inv (s : State) : Prop where
  flow : ∀ i, (s.sent i).map cut = s.messages i
  short : ∀ i, ∀ datagram ∈ s.taken i, datagram.length < MAXMSZ
  printed : ∀ i, s.printed i = (s.taken i).map cString
  size : s.buf.length = MAXMSZ
  waiting : ∀ i : Fin NQ, ∀ k, s.pc = .scan k → k ≤ i → s.revents i = true → s.sock i ≠ []
  overrun : s.pc = .undefined → ∃ i, ∃ bytes ∈ s.sent i, MAXMSZ ≤ bytes.length

/-- No call of a helper or of `read` fails. -/
def NoFailure (_ : State) : Action → Prop
  | .msgrcvFails _ | .writeFails _ | .readFails => False
  | _ => True

variable {s s' : State} {act : Action} {i : Fin NQ}

theorem current_eq (h : s.current = some i) : s.pc = .scan i := by
  rw [State.current] at h
  split at h
  · rename_i k at_
    split at h
    · cases h
      exact at_
    · cases h
  · cases h
  · cases h
  · cases h

namespace Inv

theorem init (buf : Vector UInt8 MAXMSZ) : Inv (.init buf) where
  flow _ := rfl
  short _ _ mem := nomatch mem
  printed _ := rfl
  size := buf.size_toArray
  waiting _ _ at_ := nomatch at_
  overrun at_ := nomatch at_

theorem put (inv : Inv s) (i : Fin NQ) (bytes : Block) : Inv (s.put i bytes) where
  flow j := by
    have old := inv.flow j
    by_cases same : j = i
    · subst same
      simp only [State.put, State.messages, Function.update_self, List.map_append]
      rw [old, State.messages, List.append_assoc]
    · simp only [State.put, State.messages, Function.update_of_ne same]
      exact old
  short := inv.short
  printed := inv.printed
  size := inv.size
  waiting := inv.waiting
  overrun at_ := by
    obtain ⟨j, m, mem, long⟩ := inv.overrun at_
    refine ⟨j, m, ?_, long⟩
    by_cases same : j = i
    · subst same
      show m ∈ Function.update s.sent j (s.sent j ++ [bytes]) j
      rw [Function.update_self]
      exact List.mem_append_left _ mem
    · show m ∈ Function.update s.sent i (s.sent i ++ [bytes]) j
      rwa [Function.update_of_ne same]

theorem msgrcv_of {bytes : Block} {queue : List Block} (inv : Inv s)
    (first : s.queue i = bytes :: queue) (free : s.held i = none) :
    Inv { s with
      queue := Function.update s.queue i queue
      held := Function.update s.held i (some (bytes.take MAXMSZ)) } where
  flow j := by
    have old := inv.flow j
    by_cases same : j = i
    · subst same
      rw [State.messages, first, free] at old
      simp only [State.messages, Function.update_self]
      rw [old]
      simp [cut]
    · simp only [State.messages, Function.update_of_ne same]
      exact old
  short := inv.short
  printed := inv.printed
  size := inv.size
  waiting := inv.waiting
  overrun := inv.overrun

theorem write_of {bytes : Block} (inv : Inv s) (held : s.held i = some bytes) :
    Inv { s with
      held := Function.update s.held i none
      sock := Function.update s.sock i (s.sock i ++ [bytes]) } where
  flow j := by
    have old := inv.flow j
    by_cases same : j = i
    · subst same
      rw [State.messages, held] at old
      simp only [State.messages, Function.update_self]
      rw [old]
      simp
    · simp only [State.messages, Function.update_of_ne same]
      exact old
  short := inv.short
  printed := inv.printed
  size := inv.size
  waiting j k at_ le ready := by
    have old := inv.waiting j k at_ le ready
    by_cases same : j = i
    · subst same
      simp
    · simpa only [Function.update_of_ne same] using old
  overrun := inv.overrun

theorem next (inv : Inv s) (at_ : s.pc = .scan i) : Inv (s.next i) where
  flow := inv.flow
  short := inv.short
  printed := inv.printed
  size := inv.size
  waiting j k h le ready := by
    have here : Pc.scan (i + 1) = .scan k := h
    cases here
    exact inv.waiting j i at_ (Nat.le_of_succ_le le) ready
  overrun := nofun

theorem read_of {datagram buf : Block} {sock : List Block} (inv : Inv s) (at_ : s.pc = .scan i)
    (first : s.sock i = datagram :: sock) (received : readText s.buf datagram = .ok buf) :
    Inv { s.next i with
      buf := buf
      sock := Function.update s.sock i sock
      taken := Function.update s.taken i (s.taken i ++ [datagram])
      printed := Function.update s.printed i (s.printed i ++ [cString buf]) } := by
  have short : datagram.length < MAXMSZ := by
    by_contra long
    obtain ⟨fault, failed⟩ := readText_long (inv.size ▸ Nat.le_of_not_lt long)
    cases received.symm.trans failed
  obtain ⟨buf', stored, size, text⟩ := readText_short (inv.size.symm ▸ short)
  obtain rfl : buf = buf' := Except.ok.inj (received.symm.trans stored)
  constructor
  case flow =>
    intro j
    have old := inv.flow j
    by_cases same : j = i
    · subst same
      rw [State.messages, first] at old
      simp only [State.messages, Function.update_self]
      show (s.sent j).map cut = _ ++ (s.held j).toList ++ (s.queue j).map cut
      rw [old]
      simp
    · simp only [State.messages, Function.update_of_ne same]
      exact old
  case short =>
    intro j
    by_cases same : j = i
    · subst same
      simp only [Function.update_self]
      exact List.forall_mem_append.mpr ⟨inv.short j, List.forall_mem_singleton.mpr short⟩
    · simp only [Function.update_of_ne same]
      exact inv.short j
  case printed =>
    intro j
    by_cases same : j = i
    · subst same
      simp only [Function.update_self]
      rw [inv.printed, List.map_append, text]
      rfl
    · simp only [Function.update_of_ne same]
      exact inv.printed j
  case size => exact size.trans inv.size
  case waiting =>
    intro j k h le ready
    have here : Pc.scan (i + 1) = .scan k := h
    cases here
    have other : j ≠ i := by
      rintro rfl
      omega
    simp only [Function.update_of_ne other]
    exact inv.waiting j i at_ (Nat.le_of_succ_le le) ready
  case overrun => exact nofun

/-- The datagram that does not fit is a message that was sent. -/
theorem readOverruns {datagram : Block} {sock : List Block} {fault : Fault} (inv : Inv s)
    (first : s.sock i = datagram :: sock) (failed : readText s.buf datagram = .error fault) :
    Inv { s with pc := .undefined } where
  flow := inv.flow
  short := inv.short
  printed := inv.printed
  size := inv.size
  waiting := nofun
  overrun _ := by
    have long : MAXMSZ ≤ datagram.length := by
      by_contra short
      obtain ⟨buf, stored, -⟩ := readText_short (inv.size.symm ▸ Nat.lt_of_not_le short)
      cases failed.symm.trans stored
    have mem : datagram ∈ (s.sent i).map cut := by
      rw [inv.flow i, State.messages, first]
      simp
    obtain ⟨bytes, sent, rfl⟩ := List.mem_map.mp mem
    exact ⟨i, bytes, sent, long.trans (List.length_take_le' _ _)⟩

theorem msgrcv (inv : Inv s) (h : s.msgrcv i = some s') : Inv s' := by
  unfold State.msgrcv at h
  split at h
  · rename_i bytes queue first free
    rw [← Option.some.inj h]
    exact inv.msgrcv_of first free
  · cases h

theorem write (inv : Inv s) (h : s.write i = some s') : Inv s' := by
  unfold State.write at h
  split at h
  · rename_i bytes held
    rw [← Option.some.inj h]
    exact inv.write_of held
  · cases h

theorem read (inv : Inv s) (at_ : s.pc = .scan i) (h : s.read i = some s') : Inv s' := by
  unfold State.read at h
  split at h
  · rename_i datagram sock ready first
    split at h
    · rename_i buf received
      rw [← Option.some.inj h]
      exact inv.read_of at_ first received
    · rename_i fault failed
      rw [← Option.some.inj h]
      exact inv.readOverruns first failed
  · cases h

theorem send {arg : Block} (inv : Inv s) (h : s.send i arg = some s') : Inv s' := by
  unfold State.send at h
  split at h
  · split at h
    · cases h
    · rw [← Option.some.inj h]
      exact inv.put i _
  · cases h

theorem step (inv : Inv s) (allowed : NoFailure s act) (h : Step s act s') : Inv s' := by
  cases act with
  | send j arg =>
      rw [Step, State.step] at h
      exact inv.send h
  | msgsnd j bytes =>
      cases h
      exact inv.put j bytes
  | msgrcv j => exact inv.msgrcv h
  | msgrcvFails j => exact allowed.elim
  | write j => exact inv.write h
  | writeFails j => exact allowed.elim
  | poll =>
      obtain ⟨⟨at_, -⟩, h⟩ := Option.ite_none_right_eq_some.mp h
      cases h
      refine ⟨inv.flow, inv.short, inv.printed, inv.size, fun j k _ _ ready => ?_, nofun⟩
      have some : ¬ s.sock j = [] := by simpa using ready
      exact some
  | pollFails =>
      obtain ⟨at_, h⟩ := Option.ite_none_right_eq_some.mp h
      cases h
      exact ⟨inv.flow, inv.short, inv.printed, inv.size, nofun, nofun⟩
  | read =>
      obtain ⟨j, current, h⟩ := Option.bind_eq_some_iff.mp h
      exact inv.read (current_eq current) h
  | readFails => exact allowed.elim
  | pass =>
      obtain ⟨j, current, h⟩ := Option.bind_eq_some_iff.mp h
      obtain ⟨-, h⟩ := Option.ite_none_right_eq_some.mp h
      cases h
      exact inv.next (current_eq current)
  | endScan =>
      obtain ⟨-, h⟩ := Option.ite_none_right_eq_some.mp h
      cases h
      exact ⟨inv.flow, inv.short, inv.printed, inv.size, nofun, nofun⟩

end Inv

instance : ∀ s act, Decidable (NoFailure s act)
  | _, .msgrcvFails _ | _, .writeFails _ | _, .readFails => inferInstanceAs (Decidable False)
  | _, .send _ _ | _, .msgsnd _ _ | _, .msgrcv _ | _, .write _ | _, .poll | _, .pollFails
  | _, .read | _, .pass | _, .endScan => inferInstanceAs (Decidable True)

/-- As long as no call of a helper and no `read` fails, the messages of each queue come through
its socket in the order in which they were sent, each cut off at `MAXMSZ` bytes, and what is
printed is the text of each up to its first NUL. No `read` blocks. Only a message of `MAXMSZ` bytes
or more, which the send program never puts on a queue, is read over the end of the buffer. -/
theorem forwarded {buf : Vector UInt8 MAXMSZ}
    (h : Reachable (Guarded NoFailure Step) (.init buf) s) (i : Fin NQ) :
    (s.sent i).map cut =
      s.taken i ++ s.sock i ++ (s.held i).toList ++ (s.queue i).map cut ∧
    s.printed i = (s.taken i).map cString ∧
    (s.current = some i → s.revents i = true → s.sock i ≠ []) ∧
    (s.pc = .undefined → ∃ j, ∃ bytes ∈ s.sent j, MAXMSZ ≤ bytes.length) := by
  have inv : Inv s := h.invariant (.init buf) fun _ _ _ inv hstep => inv.step hstep.1 hstep.2
  exact ⟨inv.flow i, inv.printed i,
    fun current ready => inv.waiting i i (current_eq current) le_rfl ready, inv.overrun⟩

def first : Fin NQ := ⟨0, by decide⟩

def second : Fin NQ := ⟨1, by decide⟩

/-- `hi` is put on the first queue twice, taken and forwarded once. -/
theorem forwarded_twice :
    ∃ s, Reachable (Guarded NoFailure Step) (.init (Vector.replicate MAXMSZ 0)) s ∧
      [cut [104, 105], cut [104, 105]] =
        s.taken first ++ s.sock first ++ (s.held first).toList ++ (s.queue first).map cut ∧
      s.sock first ≠ [] := by
  have run : ∃ s, Steps (Guarded NoFailure Step) (.init (Vector.replicate MAXMSZ 0))
      [.msgsnd first [104, 105], .msgsnd first [104, 105], .msgrcv first, .write first, .poll] s ∧
      s.sent first = [[104, 105], [104, 105]] ∧ s.current = some first ∧ s.revents first = true :=
    ⟨_, Steps.of_foldlM_guarded rfl, rfl, rfl, rfl⟩
  obtain ⟨s, steps, sent, current, ready⟩ := run
  obtain ⟨flow, -, waiting, -⟩ := forwarded ⟨_, steps⟩ first
  rw [sent] at flow
  exact ⟨s, ⟨_, steps⟩, flow, waiting current ready⟩

/-! ## The send program -/

/-- As `NoFailure`, and all messages come from the send program. -/
def FromSend (s : State) : Action → Prop
  | .msgsnd _ _ => False
  | act => NoFailure s act

theorem FromSend.noFailure (allowed : FromSend s act) : NoFailure s act := by
  cases act with
  | msgsnd i bytes => exact trivial
  | _ => exact allowed

/-- A message that is its own text and leaves room for a NUL. -/
def Text (bytes : Block) : Prop := 0 ∉ bytes ∧ bytes.length < MAXMSZ

def AllText (s : State) : Prop := ∀ i, ∀ bytes ∈ s.sent i, Text bytes

theorem Text.cut_eq {bytes : Block} (text : Text bytes) : cut bytes = bytes :=
  List.take_of_length_le text.2.le

/-- A message that is cut off has no room for a NUL. -/
theorem eq_of_text_cut {bytes : Block} (text : Text (cut bytes)) : cut bytes = bytes := by
  have short := text.2
  rw [cut, List.length_take] at short
  exact List.take_of_length_le (by omega)

theorem Text.cString_eq {bytes : Block} (text : Text bytes) : cString bytes = bytes :=
  cString_of_notMem text.1

theorem sendTest_text {arg bytes : Block} (plain : 0 ∉ arg) (h : sendTest arg = .ok bytes) :
    Text bytes := by
  rw [sendTest_eq plain] at h
  rw [← Except.ok.inj h]
  refine ⟨fun mem => plain (List.mem_of_mem_take mem), ?_⟩
  have bound := List.length_take_le (MAXMSZ - 1) arg
  have positive : MAXMSZ - 1 < MAXMSZ := Nat.sub_lt (Nat.zero_lt_succ _) Nat.one_pos
  exact bound.trans_lt positive

theorem send_eq {arg : Block} (plain : 0 ∉ arg) (s : State) (i : Fin NQ) :
    s.send i arg = some (s.put i (arg.take (MAXMSZ - 1))) := by
  unfold State.send
  simp only [sendTest_eq plain, if_neg plain]

theorem sent_put (s : State) (i j : Fin NQ) (bytes : Block) :
    ∀ m ∈ (s.put i bytes).sent j, m ∈ s.sent j ∨ m = bytes := by
  intro m mem
  by_cases same : j = i
  · subst same
    simp only [State.put, Function.update_self] at mem
    exact (List.mem_append.mp mem).imp_right List.mem_singleton.mp
  · simp only [State.put, Function.update_of_ne same] at mem
    exact .inl mem

theorem AllText.send {arg : Block} (all : AllText s) (h : s.send i arg = some s') :
    AllText s' := by
  unfold State.send at h
  split at h
  · rename_i bytes sends
    split at h
    · cases h
    · rename_i plain
      rw [← Option.some.inj h]
      intro j m mem
      obtain old | rfl := sent_put s i j bytes m mem
      · exact all j m old
      · exact sendTest_text plain sends
  · cases h

theorem State.sent_msgrcv (h : s.msgrcv i = some s') : s'.sent = s.sent := by
  unfold State.msgrcv at h
  split at h
  · rw [← Option.some.inj h]
  · cases h

theorem State.sent_write (h : s.write i = some s') : s'.sent = s.sent := by
  unfold State.write at h
  split at h
  · rw [← Option.some.inj h]
  · cases h

theorem State.sent_read (h : s.read i = some s') : s'.sent = s.sent := by
  unfold State.read at h
  split at h
  · split at h
    · rw [← Option.some.inj h]
      rfl
    · rw [← Option.some.inj h]
  · cases h

theorem AllText.step (all : AllText s) (allowed : FromSend s act) (h : Step s act s') :
    AllText s' := by
  have same (unchanged : s'.sent = s.sent) : AllText s' := by
    rw [AllText, unchanged]
    exact all
  cases act with
  | send j arg =>
      rw [Step, State.step] at h
      exact all.send h
  | msgsnd j bytes => exact allowed.elim
  | msgrcv j => exact same (State.sent_msgrcv h)
  | msgrcvFails j => exact allowed.elim
  | write j => exact same (State.sent_write h)
  | writeFails j => exact allowed.elim
  | poll | pollFails | endScan =>
      obtain ⟨-, h⟩ := Option.ite_none_right_eq_some.mp h
      cases h
      exact all
  | read =>
      obtain ⟨j, -, h⟩ := Option.bind_eq_some_iff.mp h
      exact same (State.sent_read h)
  | readFails => exact allowed.elim
  | pass =>
      obtain ⟨j, -, h⟩ := Option.bind_eq_some_iff.mp h
      obtain ⟨-, h⟩ := Option.ite_none_right_eq_some.mp h
      cases h
      exact all

theorem map_text {f : Block → Block} {blocks : List Block}
    (h : ∀ bytes ∈ blocks, f bytes = bytes) : blocks.map f = blocks := by
  rw [List.map_congr_left h, List.map_id']

theorem inv_of_sends {buf : Vector UInt8 MAXMSZ}
    (h : Reachable (Guarded FromSend Step) (.init buf) s) : Inv s ∧ AllText s :=
  h.invariant (I := fun s => Inv s ∧ AllText s) ⟨.init buf, fun _ _ mem => nomatch mem⟩
    fun _ _ _ inv hstep => ⟨inv.1.step hstep.1.noFailure hstep.2, inv.2.step hstep.1 hstep.2⟩

/-- If the send program alone puts messages on the queues, each queue's messages are printed
unchanged, once each and in order, and the buffer is never overrun. -/
theorem send_prints {buf : Vector UInt8 MAXMSZ}
    (h : Reachable (Guarded FromSend Step) (.init buf) s) (i : Fin NQ) :
    s.sent i = s.printed i ++ s.sock i ++ (s.held i).toList ++ s.queue i ∧
    s.pc ≠ .undefined := by
  obtain ⟨inv, text⟩ := inv_of_sends h
  have flow := inv.flow i
  have whole : (s.sent i).map cut = s.sent i := map_text fun m mem => (text i m mem).cut_eq
  rw [whole, State.messages] at flow
  constructor
  · have queued : (s.queue i).map cut = s.queue i := by
      refine map_text fun m mem => eq_of_text_cut (text i _ ?_)
      rw [flow]
      exact List.mem_append_right _ (List.mem_map_of_mem mem)
    have taken : s.printed i = s.taken i := by
      rw [inv.printed]
      refine map_text fun m mem => (text i m ?_).cString_eq
      rw [flow]
      simp [mem]
    rw [taken, flow, queued]
  · intro undefined
    obtain ⟨j, m, mem, long⟩ := inv.overrun undefined
    exact absurd (text j m mem).2 (Nat.not_lt.mpr long)

instance : ∀ s act, Decidable (FromSend s act)
  | _, .msgsnd _ _ => inferInstanceAs (Decidable False)
  | s, .send i arg => inferInstanceAs (Decidable (NoFailure s (.send i arg)))
  | s, .msgrcv i => inferInstanceAs (Decidable (NoFailure s (.msgrcv i)))
  | s, .msgrcvFails i => inferInstanceAs (Decidable (NoFailure s (.msgrcvFails i)))
  | s, .write i => inferInstanceAs (Decidable (NoFailure s (.write i)))
  | s, .writeFails i => inferInstanceAs (Decidable (NoFailure s (.writeFails i)))
  | s, .poll => inferInstanceAs (Decidable (NoFailure s .poll))
  | s, .pollFails => inferInstanceAs (Decidable (NoFailure s .pollFails))
  | s, .read => inferInstanceAs (Decidable (NoFailure s .read))
  | s, .readFails => inferInstanceAs (Decidable (NoFailure s .readFails))
  | s, .pass => inferInstanceAs (Decidable (NoFailure s .pass))
  | s, .endScan => inferInstanceAs (Decidable (NoFailure s .endScan))

theorem step_read {datagram buf : Block} {sock : List Block} (current : s.current = some i)
    (ready : s.revents i = true) (first : s.sock i = datagram :: sock)
    (received : readText s.buf datagram = .ok buf) :
    ∃ s', Step s .read s' ∧ s'.taken i = s.taken i ++ [datagram] := by
  have reads : Step s .read
      { s.next i with
        buf := buf
        sock := Function.update s.sock i sock
        taken := Function.update s.taken i (s.taken i ++ [datagram])
        printed := Function.update s.printed i (s.printed i ++ [cString buf]) } := by
    refine (congrArg (Option.bind · s.read) current).trans ?_
    show s.read i = _
    simp only [State.read, ready, first, received]
  exact ⟨_, reads, Function.update_self ..⟩

/-- `hi` is sent to the second queue and printed. -/
theorem send_prints_hi :
    ∃ s, Reachable (Guarded FromSend Step) (.init (Vector.replicate MAXMSZ 0)) s ∧
      s.taken second = [[104, 105]] ∧
      s.sent second =
        s.printed second ++ s.sock second ++ (s.held second).toList ++ s.queue second := by
  let start := State.init (Vector.replicate MAXMSZ 0)
  have plain : (0 : UInt8) ∉ ([104, 105] : Block) := by decide
  have put : Guarded FromSend Step start (.send second [104, 105])
      (start.put second [104, 105]) := ⟨trivial, send_eq plain start second⟩
  have rest : ∃ s, Steps (Guarded FromSend Step) (start.put second [104, 105])
        [.msgrcv second, .write second, .poll, .pass] s ∧
      s.current = some second ∧ s.revents second = true ∧
      s.sock second = [[104, 105]] ∧ s.taken second = [] :=
    ⟨_, Steps.of_foldlM_guarded rfl, rfl, rfl, rfl, rfl⟩
  obtain ⟨s, steps, current, ready, waiting, none_⟩ := rest
  have inv := (inv_of_sends ⟨_, .cons put steps⟩).1
  obtain ⟨buf, stored, -⟩ := @readText_short s.buf [104, 105] (inv.size.symm ▸ by decide)
  obtain ⟨s', read, taken⟩ := step_read current ready waiting stored
  rw [none_] at taken
  have last : Guarded FromSend Step s .read s' := ⟨trivial, read⟩
  have whole := Steps.cons put (steps.append (.single last))
  exact ⟨s', ⟨_, whole⟩, taken, (send_prints ⟨_, whole⟩ second).1⟩

end UnixProgramming.MessageQueue
