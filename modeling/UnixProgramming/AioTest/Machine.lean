import UnixProgramming.Library.CMemory
import UnixProgramming.Library.File
import UnixProgramming.Library.Transition
import Mathlib.Logic.Function.Basic

/-!
# `aio_test1`: eight slots that read, translate and write

The program scans its slots in order and waits in `aio_suspend` between scans. The
kernel completes a pending request at any time, with all of the bytes that it asks
for and, at the end of the input file, with those that are left. Calls that open,
start or collect a request do not fail.
-/

namespace UnixProgramming.AioTest

open CMemory

def AIO_BUFF_SIZE : Nat := 256

abbrev AIO_BUFF_NUM : Nat := 8

/-- `isalpha` in the locale that a program starts with. -/
def isalpha (c : UInt8) : Bool := (65 ≤ c && c ≤ 90) || (97 ≤ c && c ≤ 122)

/-- The four bounds are `'n'`, `'a'`, `'N'` and, in the last branch, `'A'`. -/
def translate (c : UInt8) : UInt8 :=
  if isalpha c then
    if 110 ≤ c then c - 13
    else if 97 ≤ c then c + 13
    else if 78 ≤ c then c - 13
    else c + 13
  else c

/-- `for (j = 0; j < n; ++j) data[j] = translate(data[j]);` -/
def translateFirst (n : Nat) (data : Block) : Block :=
  (data.take n).map translate ++ data.drop n

/-! ## `char_process_test` -/

/-- Its loop: the rest of the input, the global `buf` and the output so far. A `read` of a
file returns what is left, up to the size that it asks for. -/
def charProcessLoop (ifd : List UInt8) (buf : Block) (ofd : List UInt8) : List UInt8 :=
  let bytes := ifd.take AIO_BUFF_SIZE
  if bytes = [] then ofd
  else
    let buf := translateFirst bytes.length (fill buf bytes)
    charProcessLoop (ifd.drop bytes.length) buf (ofd ++ buf.take bytes.length)
termination_by ifd.length
decreasing_by
  have pos : 0 < (ifd.take AIO_BUFF_SIZE).length := List.length_pos_of_ne_nil ‹_›
  have short : (ifd.take AIO_BUFF_SIZE).length ≤ ifd.length := List.length_take_le' _ _
  simp only [List.length_drop]
  omega

/-- The output file for an input file. -/
def charProcessTest (file : List UInt8) : List UInt8 :=
  charProcessLoop file (List.replicate AIO_BUFF_SIZE 0) []

/-! ## `aio_test1` -/

/-- `enum rwop`. -/
inductive Rwop
  | unused
  | readPending
  | writePending
  deriving DecidableEq

inductive Fildes
  | ifd
  | ofd
  deriving DecidableEq

/-- The control block fields that the program sets between requests. -/
structure Aiocb where
  fildes : Fildes
  offset : Nat
  nbytes : Nat

/-- The request of a control block in the kernel. A completed one has the value that
`aio_return` will give, and `aio_error` gives 0 for it. -/
inductive Request
  | none
  | reading
  | writing
  | complete (ret : Nat)
  deriving DecidableEq

def Request.isComplete : Request → Bool
  | complete _ => true
  | _ => false

/-- One `aio_buf_t`, with its request and whether `aiolist` points to it. -/
structure Slot where
  op : Rwop
  last : Bool
  aiocb : Aiocb
  data : Block
  request : Request
  listed : Bool

def Slot.init : Slot :=
  ⟨.unused, false, ⟨.ifd, 0, 0⟩, List.replicate AIO_BUFF_SIZE 0, .none, false⟩

inductive Pc
  | scan (i : Fin AIO_BUFF_NUM)
  | scanned
  | finished
  deriving DecidableEq

/-- The program, the output file, and the transfers that the kernel has carried out, as
offsets and bytes in the order of completion. -/
structure State where
  slots : Fin AIO_BUFF_NUM → Slot
  off : Nat
  aioOpNum : Int
  pc : Pc
  out : List UInt8
  reads : List (Nat × List UInt8)
  writes : List (Nat × List UInt8)

def State.init : State := ⟨fun _ => .init, 0, 0, .scan 0, [], [], []⟩

inductive Action
  | visit
  | complete (i : Fin AIO_BUFF_NUM)
  | rescan
  deriving DecidableEq

/-- Why there is no next state: the action is not possible, or the program exits. -/
inductive Stop
  | disabled
  | shortRead (n : Nat)
  | shortWrite (n : Nat)
  | noRequest
  deriving DecidableEq

/-- What a visit changes besides the scan position. -/
structure Visited where
  slot : Slot
  off : Nat
  aioOpNum : Int

/-- The body of the inner loop on one slot, with `st_size` of the input file. -/
def visitSlot (stSize : Nat) (s : Slot) (off : Nat) (aioOpNum : Int) : Except Stop Visited :=
  match s.op with
  | .unused =>
      if off < stSize then
        let slot := { s with
          op := .readPending
          aiocb := ⟨.ifd, off, AIO_BUFF_SIZE⟩
          last := if stSize ≤ off + AIO_BUFF_SIZE then true else s.last
          request := .reading
          listed := true }
        .ok ⟨slot, off + AIO_BUFF_SIZE, aioOpNum + 1⟩
      else .ok ⟨s, off, aioOpNum⟩
  | .readPending =>
      match s.request with
      | .none => .error .noRequest
      | .complete n =>
          if n ≠ AIO_BUFF_SIZE ∧ s.last = false then .error (.shortRead n)
          else
            let slot := { s with
              op := .writePending
              aiocb := ⟨.ofd, s.aiocb.offset, n⟩
              data := translateFirst n s.data
              request := .writing }
            .ok ⟨slot, off, aioOpNum⟩
      -- EINPROGRESS
      | .reading | .writing => .ok ⟨s, off, aioOpNum⟩
  | .writePending =>
      match s.request with
      | .none => .error .noRequest
      | .complete n =>
          if n ≠ s.aiocb.nbytes then .error (.shortWrite n)
          else
            let slot := { s with op := .unused, request := .none, listed := false }
            .ok ⟨slot, off, aioOpNum - 1⟩
      | .reading | .writing => .ok ⟨s, off, aioOpNum⟩

namespace State

def setSlot (s : State) (i : Fin AIO_BUFF_NUM) (slot : Slot) : State :=
  { s with slots := Function.update s.slots i slot }

/-- One slot visit, and on to the next slot. -/
def visit (file : List UInt8) (s : State) : Except Stop State :=
  match s.pc with
  | .scan i =>
      match visitSlot file.length (s.slots i) s.off s.aioOpNum with
      | .error stop => .error stop
      | .ok v =>
          let pc := if h : i.val + 1 < AIO_BUFF_NUM then .scan ⟨i.val + 1, h⟩ else .scanned
          .ok { s.setSlot i v.slot with off := v.off, aioOpNum := v.aioOpNum, pc }
  | _ => .error .disabled

/-- The kernel carries out a request. -/
def complete (file : List UInt8) (s : State) (i : Fin AIO_BUFF_NUM) : Except Stop State :=
  let slot := s.slots i
  let cb := slot.aiocb
  match slot.request, cb.fildes with
  | .reading, .ifd =>
      let bytes := (file.drop cb.offset).take cb.nbytes
      .ok { s.setSlot i { slot with
          data := fill slot.data bytes, request := .complete bytes.length } with
        reads := s.reads ++ [(cb.offset, bytes)] }
  | .writing, .ofd =>
      let bytes := slot.data.take cb.nbytes
      .ok { s.setSlot i { slot with request := .complete bytes.length } with
        out := File.writeAt s.out cb.offset bytes
        writes := s.writes ++ [(cb.offset, bytes)] }
  | _, _ => .error .disabled

/-- Behind the inner loop: the break, or the next scan, which waits in `aio_suspend` for a
listed request to be complete if there are operations pending. -/
def rescan (file : List UInt8) (s : State) : Except Stop State :=
  if s.pc = .scanned then
    if s.aioOpNum = 0 then
      if file.length ≤ s.off then .ok { s with pc := .finished }
      else .ok { s with pc := .scan 0 }
    else if ∃ i, (s.slots i).listed ∧ (s.slots i).request.isComplete then
      .ok { s with pc := .scan 0 }
    else .error .disabled
  else .error .disabled

def step (file : List UInt8) (s : State) : Action → Except Stop State
  | .visit => s.visit file
  | .complete i => s.complete file i
  | .rescan => s.rescan file

end State

/-- One step of the program or of the kernel on a fixed input file. -/
def Step (file : List UInt8) (s : State) (act : Action) (s' : State) : Prop :=
  s.step file act = .ok s'

end UnixProgramming.AioTest
