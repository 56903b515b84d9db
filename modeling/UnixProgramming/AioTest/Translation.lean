import UnixProgramming.AioTest.Machine
import UnixProgramming.Library.SlotSum
import Mathlib.Algebra.Order.BigOperators.Group.Finset
import Mathlib.Algebra.Order.Group.Multiset
import Mathlib.Data.Multiset.Range

/-!
# Every order of completions translates the file

A slot in use goes through four stages, and each block of the input that the program
has asked for is in one slot or in the log of carried out writes. When no operation is
pending the log has every block, and writes of different blocks do not overlap.
-/

namespace UnixProgramming.AioTest

open CMemory SlotSum Transition

/-- The block of the input at an offset, shorter than the buffer at the end of the file. -/
def block (file : List UInt8) (offset : Nat) : List UInt8 :=
  (file.drop offset).take AIO_BUFF_SIZE

/-- The transfer that reads the block at an offset. -/
def readOf (file : List UInt8) (offset : Nat) : Nat × List UInt8 := (offset, block file offset)

/-- The transfer that writes the translated block at its own offset. -/
def writeOf (file : List UInt8) (offset : Nat) : Nat × List UInt8 :=
  (offset, (block file offset).map translate)

/-- The states of a slot. The block of a slot in use is the one at its offset. -/
inductive Slot.Valid (file : List UInt8) : Slot → Prop
  | unused {last : Bool} {aiocb : Aiocb} {data : Block} :
      Valid file ⟨.unused, last, aiocb, data, .none, false⟩
  | reading {last : Bool} {o : Nat} {data : Block}
      (isLast : file.length ≤ o + AIO_BUFF_SIZE → last = true) :
      Valid file ⟨.readPending, last, ⟨.ifd, o, AIO_BUFF_SIZE⟩, data, .reading, true⟩
  | read {last : Bool} {o : Nat} {data : Block}
      (isLast : file.length ≤ o + AIO_BUFF_SIZE → last = true)
      (stored : data.take (block file o).length = block file o) :
      Valid file ⟨.readPending, last, ⟨.ifd, o, AIO_BUFF_SIZE⟩, data,
        .complete (block file o).length, true⟩
  | writing {last : Bool} {o : Nat} {data : Block}
      (translated : data.take (block file o).length = (block file o).map translate) :
      Valid file ⟨.writePending, last, ⟨.ofd, o, (block file o).length⟩, data, .writing, true⟩
  | written {last : Bool} {o : Nat} {data : Block} :
      Valid file ⟨.writePending, last, ⟨.ofd, o, (block file o).length⟩, data,
        .complete (block file o).length, true⟩

namespace Slot

/-- The read that a slot has asked for and that is not carried out. -/
def unread (file : List UInt8) (s : Slot) : Multiset (Nat × List UInt8) :=
  if s.request = .reading then {readOf file s.aiocb.offset} else 0

/-- The write that a slot will ask for or has asked for and that is not carried out. -/
def unwritten (file : List UInt8) (s : Slot) : Multiset (Nat × List UInt8) :=
  if s.op = .readPending ∨ s.request = .writing then {writeOf file s.aiocb.offset} else 0

def inUse (s : Slot) : Nat := if s.op ≠ .unused then 1 else 0

end Slot

/-- The transfers of all blocks before `off`. -/
def asked (transfer : Nat → Nat × List UInt8) (off : Nat) : Multiset (Nat × List UInt8) :=
  (Multiset.range (off / AIO_BUFF_SIZE)).map fun k => transfer (AIO_BUFF_SIZE * k)

theorem asked_add (transfer : Nat → Nat × List UInt8) {off : Nat} (aligned : AIO_BUFF_SIZE ∣ off) :
    asked transfer (off + AIO_BUFF_SIZE) = asked transfer off + {transfer off} := by
  have next : (off + AIO_BUFF_SIZE) / AIO_BUFF_SIZE = off / AIO_BUFF_SIZE + 1 :=
    Nat.add_div_right off (by decide)
  rw [asked, next, Multiset.range_succ, Multiset.map_cons, Nat.mul_div_cancel' aligned, asked,
    add_comm, Multiset.singleton_add]

theorem mem_asked {transfer : Nat → Nat × List UInt8} {off : Nat} {t : Nat × List UInt8} :
    t ∈ asked transfer off ↔
      ∃ k < off / AIO_BUFF_SIZE, transfer (AIO_BUFF_SIZE * k) = t := by
  simp [asked]

theorem nodup_asked_writeOf (file : List UInt8) (off : Nat) :
    (asked (writeOf file) off).Nodup := by
  refine (Multiset.nodup_range _).map fun k k' same => ?_
  have offsets : AIO_BUFF_SIZE * k = AIO_BUFF_SIZE * k' := congrArg Prod.fst same
  exact Nat.eq_of_mul_eq_mul_left (by decide) offsets

theorem length_block (file : List UInt8) (o : Nat) :
    (block file o).length = min AIO_BUFF_SIZE (file.length - o) := by
  simp [block]

theorem take_translateFirst {n : Nat} {data : Block} (fits : n ≤ data.length) :
    (translateFirst n data).take n = (data.take n).map translate := by
  have length : ((data.take n).map translate).length = n := by simp [fits]
  exact List.take_left' length

/-- What a visit does to a slot: it keeps the count of slots in use, and it moves on in the
slot's own cycle or asks for the next block. -/
structure VisitSpec (file : List UInt8) (s : Slot) (off : Nat) (num : Int) (v : Visited) :
    Prop where
  valid : v.slot.Valid file
  count : v.aioOpNum - v.slot.inUse = num - s.inUse
  blocks : (v.off = off ∧ v.slot.unread file = s.unread file ∧
      v.slot.unwritten file = s.unwritten file) ∨
    (off < file.length ∧ v.off = off + AIO_BUFF_SIZE ∧ s.unread file = 0 ∧ s.unwritten file = 0 ∧
      v.slot.unread file = {readOf file off} ∧ v.slot.unwritten file = {writeOf file off})

theorem visitSlot_spec {file : List UInt8} {s : Slot} (valid : s.Valid file) (off : Nat)
    (num : Int) : ∃ v, visitSlot file.length s off num = .ok v ∧ VisitSpec file s off num v := by
  cases valid with
  | unused =>
      by_cases more : off < file.length
      · refine ⟨_, if_pos more, .reading fun atEnd => if_pos atEnd, ?_, .inr ?_⟩
        · simp [Slot.inUse]
        · simp [more, Slot.unread, Slot.unwritten]
      · exact ⟨_, if_neg more, .unused, rfl, .inl ⟨rfl, rfl, rfl⟩⟩
  | reading isLast => exact ⟨_, rfl, .reading isLast, rfl, .inl ⟨rfl, rfl, rfl⟩⟩
  | read isLast stored =>
      rename_i last o data
      have complete : ¬ ((block file o).length ≠ AIO_BUFF_SIZE ∧ last = false) := by
        rintro ⟨short, notLast⟩
        rw [length_block] at short
        have := isLast (by omega)
        simp [notLast] at this
      have fits : (block file o).length ≤ data.length := by
        rw [← stored]
        exact List.length_take_le' _ _
      refine ⟨_, if_neg complete, .writing ?_, rfl, .inl ⟨rfl, rfl, rfl⟩⟩
      rw [take_translateFirst fits, stored]
  | writing translated => exact ⟨_, rfl, .writing translated, rfl, .inl ⟨rfl, rfl, rfl⟩⟩
  | written =>
      refine ⟨_, if_neg (not_not.mpr rfl), .unused, ?_, .inl ⟨rfl, rfl, rfl⟩⟩
      simp [Slot.inUse]

/-- Blocks are accounted for, and the output holds what has been written. -/
structure Inv (file : List UInt8) (s : State) : Prop where
  valid : ∀ i, (s.slots i).Valid file
  aligned : AIO_BUFF_SIZE ∣ s.off
  bounded : s.off < file.length + AIO_BUFF_SIZE
  count : s.aioOpNum = (total Slot.inUse s.slots : Nat)
  reads : (s.reads : Multiset _) + total (Slot.unread file) s.slots = asked (readOf file) s.off
  writes : (s.writes : Multiset _) + total (Slot.unwritten file) s.slots =
    asked (writeOf file) s.off
  holds : ∀ t ∈ s.writes, File.Holds s.out t.1 t.2
  short : s.out.length ≤ file.length
  done : s.pc = .finished → s.aioOpNum = 0 ∧ file.length ≤ s.off

theorem inv_init (file : List UInt8) : Inv file .init where
  valid _ := .unused
  aligned := Nat.dvd_zero _
  bounded := by simp [State.init, AIO_BUFF_SIZE]
  count := by simp [State.init, total_eq_zero, Slot.init, Slot.inUse]
  reads := by simp [State.init, total_eq_zero, Slot.init, Slot.unread, asked]
  writes := by simp [State.init, total_eq_zero, Slot.init, Slot.unwritten, asked]
  holds := by simp [State.init]
  short := by simp [State.init]
  done := by simp [State.init]

namespace Inv

variable {file : List UInt8} {s s' : State}

theorem valid_update (inv : Inv file s) (i : Fin AIO_BUFF_NUM) {slot : Slot}
    (valid : slot.Valid file) (j : Fin AIO_BUFF_NUM) :
    (Function.update s.slots i slot j).Valid file := by
  by_cases h : j = i
  · subst h
    simpa using valid
  · simpa [h] using inv.valid j

theorem visit (inv : Inv file s) (hstep : s.visit file = .ok s') : Inv file s' := by
  rw [State.visit] at hstep
  split at hstep
  · rename_i i pc
    obtain ⟨v, run, spec⟩ := visitSlot_spec (inv.valid i) s.off s.aioOpNum
    rw [run] at hstep
    cases hstep
    have valid := inv.valid_update i spec.valid
    have count : v.aioOpNum =
        (total Slot.inUse (Function.update s.slots i v.slot) : Nat) := by
      have exchange := total_update Slot.inUse s.slots i v.slot
      have := spec.count
      have := inv.count
      omega
    obtain ⟨off, unread, unwritten⟩ | ⟨more, off, free, free', unread, unwritten⟩ := spec.blocks
    · refine ⟨valid, off ▸ inv.aligned, off ▸ inv.bounded, count, ?_, ?_, inv.holds, inv.short, ?_⟩
      · simpa [off, State.setSlot, total_update_of_eq unread] using inv.reads
      · simpa [off, State.setSlot, total_update_of_eq unwritten] using inv.writes
      · dsimp only
        split <;> simp
    · refine ⟨valid, ?_, ?_, count, ?_, ?_, inv.holds, inv.short, ?_⟩
      · exact off ▸ Nat.dvd_add inv.aligned (Nat.dvd_refl _)
      · dsimp only
        omega
      · simpa [off, State.setSlot, asked_add _ inv.aligned] using
          add_total_update_new inv.reads free unread
      · simpa [off, State.setSlot, asked_add _ inv.aligned] using
          add_total_update_new inv.writes free' unwritten
      · dsimp only
        split <;> simp
  · cases hstep

/-- A carried out read brings its block into the slot. -/
theorem completeRead (inv : Inv file s) {i : Fin AIO_BUFF_NUM} {last : Bool} {o : Nat}
    {data : Block} (isLast : file.length ≤ o + AIO_BUFF_SIZE → last = true)
    (slot : s.slots i = ⟨.readPending, last, ⟨.ifd, o, AIO_BUFF_SIZE⟩, data, .reading, true⟩) :
    Inv file { s.setSlot i ⟨.readPending, last, ⟨.ifd, o, AIO_BUFF_SIZE⟩,
        fill data (block file o), .complete (block file o).length, true⟩ with
      reads := s.reads ++ [readOf file o] } where
  valid := inv.valid_update i (.read isLast (take_fill _ _))
  aligned := inv.aligned
  bounded := inv.bounded
  count := by
    rw [State.setSlot, total_update_of_eq (by rw [slot]; rfl)]
    exact inv.count
  reads := by
    rw [← Multiset.coe_add]
    exact log_add_total_update inv.reads (by rw [slot]; rfl) rfl
  writes := by
    rw [State.setSlot, total_update_of_eq (by rw [slot]; rfl)]
    exact inv.writes
  holds := inv.holds
  short := inv.short
  done := inv.done

/-- A block whose write is pending is in the file, and apart from all that are written. -/
theorem disjoint (inv : Inv file s) {i : Fin AIO_BUFF_NUM} {o : Nat}
    (unwritten : (s.slots i).unwritten file = {writeOf file o}) :
    o < file.length ∧ ∀ t ∈ s.writes, t.1 + t.2.length ≤ o ∨
      o + ((block file o).map translate).length ≤ t.1 := by
  have exchange := total_update (Slot.unwritten file) s.slots i .init
  have free : Slot.init.unwritten file = 0 := rfl
  have parts : writeOf file o ::ₘ
      ((s.writes : Multiset _) + total (Slot.unwritten file) (Function.update s.slots i .init)) =
        asked (writeOf file) s.off := by
    rw [unwritten, free, add_zero] at exchange
    rw [← Multiset.singleton_add, add_comm, add_assoc, exchange, inv.writes]
  have distinct := nodup_asked_writeOf file s.off
  rw [← parts, Multiset.nodup_cons] at distinct
  obtain ⟨k, inAsked, offset⟩ := mem_asked.mp (parts ▸ Multiset.mem_cons_self _ _)
  obtain rfl : AIO_BUFF_SIZE * k = o := congrArg Prod.fst offset
  have size : AIO_BUFF_SIZE = 256 := rfl
  constructor
  · have bounded := inv.bounded
    have asked := Nat.div_mul_le_self s.off AIO_BUFF_SIZE
    simp only [size] at inAsked asked bounded ⊢
    omega
  · intro t ht
    have written : t ∈ asked (writeOf file) s.off := by
      rw [← inv.writes]
      exact Multiset.mem_add.mpr (.inl ht)
    obtain ⟨k', -, rfl⟩ := mem_asked.mp written
    have other : k' ≠ k := by
      rintro rfl
      exact distinct.1 (Multiset.mem_add.mpr (.inl ht))
    simp only [writeOf, List.length_map, length_block, size]
    omega

/-- A carried out write puts its block behind no other one. -/
theorem completeWrite (inv : Inv file s) {i : Fin AIO_BUFF_NUM} {last : Bool} {o : Nat}
    {data : Block}
    (slot : s.slots i =
      ⟨.writePending, last, ⟨.ofd, o, (block file o).length⟩, data, .writing, true⟩) :
    Inv file { s.setSlot i ⟨.writePending, last, ⟨.ofd, o, (block file o).length⟩, data,
        .complete (block file o).length, true⟩ with
      out := File.writeAt s.out o ((block file o).map translate)
      writes := s.writes ++ [writeOf file o] } := by
  obtain ⟨inFile, disjoint⟩ := inv.disjoint (i := i) (o := o) (by rw [slot]; rfl)
  refine ⟨inv.valid_update i .written, inv.aligned, inv.bounded, ?_, ?_, ?_, ?_, ?_, inv.done⟩
  · rw [State.setSlot, total_update_of_eq (by rw [slot]; rfl)]
    exact inv.count
  · rw [State.setSlot, total_update_of_eq (by rw [slot]; rfl)]
    exact inv.reads
  · rw [← Multiset.coe_add]
    exact log_add_total_update inv.writes (by rw [slot]; rfl) rfl
  · intro t ht
    obtain old | new := List.mem_append.mp ht
    · exact (inv.holds t old).writeAt (disjoint t old)
    · obtain rfl := List.mem_singleton.mp new
      exact File.holds_writeAt _ _ _
  · have := inv.short
    rw [File.length_writeAt, List.length_map, length_block]
    omega

theorem complete (inv : Inv file s) {i : Fin AIO_BUFF_NUM}
    (hstep : s.complete file i = .ok s') : Inv file s' := by
  have valid := inv.valid i
  generalize slot : s.slots i = old at valid
  cases valid with
  | unused => simp [State.complete, slot] at hstep
  | reading isLast =>
      simp only [State.complete, slot] at hstep
      cases hstep
      exact inv.completeRead isLast slot
  | read => simp [State.complete, slot] at hstep
  | writing translated =>
      simp only [State.complete, slot, translated, List.length_map] at hstep
      cases hstep
      exact inv.completeWrite slot
  | written => simp [State.complete, slot] at hstep

theorem rescan (inv : Inv file s) (hstep : s.rescan file = .ok s') : Inv file s' := by
  rw [State.rescan] at hstep
  split at hstep
  · split at hstep
    · rename_i idle
      split at hstep
      · rename_i allAsked
        cases hstep
        exact { inv with done := fun _ => ⟨idle, allAsked⟩ }
      · cases hstep
        exact { inv with done := by simp }
    · split at hstep
      · cases hstep
        exact { inv with done := by simp }
      · cases hstep
  · cases hstep

theorem step (inv : Inv file s) {act : Action} (hstep : Step file s act s') : Inv file s' := by
  cases act with
  | visit => exact inv.visit hstep
  | complete i => exact inv.complete hstep
  | rescan => exact inv.rescan hstep

end Inv

theorem inv_of_reachable {file : List UInt8} {s : State} (h : Reachable (Step file) .init s) :
    Inv file s :=
  h.invariant (inv_init file) fun _ _ _ inv hstep => inv.step hstep

/-- The offsets of the blocks of a file. -/
def blockOffsets (size : Nat) : List Nat :=
  (List.range ((size + AIO_BUFF_SIZE - 1) / AIO_BUFF_SIZE)).map (AIO_BUFF_SIZE * ·)

/-- At the end of the file all blocks have been asked for. -/
theorem asked_eq_blockOffsets (transfer : Nat → Nat × List UInt8) {off size : Nat}
    (aligned : AIO_BUFF_SIZE ∣ off) (reached : size ≤ off) (bounded : off < size + AIO_BUFF_SIZE) :
    asked transfer off = ((blockOffsets size).map transfer : Multiset _) := by
  have blocks : off / AIO_BUFF_SIZE = (size + AIO_BUFF_SIZE - 1) / AIO_BUFF_SIZE := by
    obtain ⟨m, rfl⟩ := aligned
    simp only [show AIO_BUFF_SIZE = 256 from rfl] at reached bounded ⊢
    omega
  rw [asked, blocks, ← Multiset.coe_range, Multiset.map_coe, blockOffsets, List.map_map]
  rfl

/-- The loop of `char_process_test` appends the translated rest of its input. -/
theorem charProcessLoop_eq (ifd : List UInt8) (buf ofd : List UInt8) :
    charProcessLoop ifd buf ofd = ofd ++ ifd.map translate := by
  fun_induction charProcessLoop ifd buf ofd with
  | case1 ifd buf ofd bytes atEnd =>
      have empty : ifd = [] := by
        obtain size | empty := List.take_eq_nil_iff.mp atEnd
        · cases size
        · exact empty
      simp [empty]
  | case2 ifd buf ofd bytes more buf' ih =>
      have whole : bytes ++ ifd.drop bytes.length = ifd :=
        List.prefix_iff_eq_append.mp (List.take_prefix _ _)
      have written : buf'.take bytes.length = bytes.map translate := by
        rw [take_translateFirst (by simp [fill]), take_fill]
      rw [ih, written, List.append_assoc, ← List.map_append, whole]

theorem charProcessTest_eq (file : List UInt8) : charProcessTest file = file.map translate :=
  charProcessLoop_eq file _ []

/-- `aio_op_num` counts the slots in use, and `aiolist` points to exactly these. -/
structure Counted (s : State) : Prop where
  count : s.aioOpNum = (Finset.univ.filter fun i => (s.slots i).op ≠ .unused).card
  listed : ∀ i, (s.slots i).listed = true ↔ (s.slots i).op ≠ .unused

/-- The output is the translated input, and each block was read once and written once at its
own offset. -/
structure Translated (file : List UInt8) (s : State) : Prop where
  mapped : s.out = file.map translate
  sequential : s.out = charProcessTest file
  readOnce : s.reads.Perm ((blockOffsets file.length).map (readOf file))
  writtenOnce : s.writes.Perm ((blockOffsets file.length).map (writeOf file))

namespace Inv

variable {file : List UInt8} {s : State}

theorem counted (inv : Inv file s) : Counted s where
  count := by
    rw [inv.count, Finset.card_filter]
    rfl
  listed i := by
    have valid := inv.valid i
    generalize s.slots i = slot at valid
    cases valid <;> simp

/-- Without pending operations every slot is unused. -/
theorem idle (inv : Inv file s) (none : s.aioOpNum = 0) (i : Fin AIO_BUFF_NUM) :
    (s.slots i).unread file = 0 ∧ (s.slots i).unwritten file = 0 := by
  have count := inv.count
  have zero : total Slot.inUse s.slots = 0 := by omega
  have free := Finset.sum_eq_zero_iff.mp zero i (Finset.mem_univ i)
  have valid := inv.valid i
  generalize s.slots i = slot at valid free
  cases valid with
  | unused => exact ⟨rfl, rfl⟩
  | _ => simp [Slot.inUse] at free

/-- A written block has its translated bytes in the output. -/
theorem getElem?_out (inv : Inv file s) {k : Nat}
    (written : writeOf file (AIO_BUFF_SIZE * k) ∈ s.writes) {j : Nat} (inBlock : j < AIO_BUFF_SIZE)
    (inFile : AIO_BUFF_SIZE * k + j < file.length) :
    s.out[AIO_BUFF_SIZE * k + j]? = (file.map translate)[AIO_BUFF_SIZE * k + j]? := by
  have inBlock' : ((block file (AIO_BUFF_SIZE * k)).map translate)[j]? =
      (file.map translate)[AIO_BUFF_SIZE * k + j]? := by
    rw [List.getElem?_map, List.getElem?_map, block, List.getElem?_take_of_lt inBlock,
      List.getElem?_drop]
  have stored : (file.map translate)[AIO_BUFF_SIZE * k + j]? =
      some (translate file[AIO_BUFF_SIZE * k + j]) := by
    rw [List.getElem?_map, List.getElem?_eq_getElem inFile]
    rfl
  rw [stored]
  exact inv.holds _ written j _ (inBlock'.trans stored)

theorem translated (inv : Inv file s) (finished : s.pc = .finished) : Translated file s := by
  obtain ⟨none, reached⟩ := inv.done finished
  have reads := inv.reads
  have writes := inv.writes
  rw [total_eq_zero fun i => (inv.idle none i).1, add_zero,
    asked_eq_blockOffsets _ inv.aligned reached inv.bounded] at reads
  rw [total_eq_zero fun i => (inv.idle none i).2, add_zero,
    asked_eq_blockOffsets _ inv.aligned reached inv.bounded] at writes
  have writtenOnce := Multiset.coe_eq_coe.mp writes
  have mapped : s.out = file.map translate := by
    refine List.ext_getElem? fun p => ?_
    by_cases inFile : p < file.length
    · have position := Nat.div_add_mod p AIO_BUFF_SIZE
      have inBlock : p % AIO_BUFF_SIZE < AIO_BUFF_SIZE := Nat.mod_lt _ (by decide)
      have isBlock : AIO_BUFF_SIZE * (p / AIO_BUFF_SIZE) ∈ blockOffsets file.length := by
        refine List.mem_map.mpr ⟨p / AIO_BUFF_SIZE, List.mem_range.mpr ?_, rfl⟩
        simp only [show AIO_BUFF_SIZE = 256 from rfl]
        omega
      have written := writtenOnce.mem_iff.mpr (List.mem_map_of_mem isBlock)
      rw [← position]
      exact inv.getElem?_out written inBlock (by omega)
    · have short := inv.short
      rw [List.getElem?_eq_none (by omega), List.getElem?_eq_none (by simpa using inFile)]
  exact ⟨mapped, mapped.trans (charProcessTest_eq file).symm, Multiset.coe_eq_coe.mp reads,
    writtenOnce⟩

end Inv

/-- In every run the counters agree at every slot visit, and at the end of every run that
finishes the file is translated as by the sequential program. -/
theorem aio_translation {file : List UInt8} {s : State} (h : Reachable (Step file) .init s) :
    Counted s ∧ (s.pc = .finished → Translated file s) :=
  ⟨(inv_of_reachable h).counted, (inv_of_reachable h).translated⟩

/-- No read or write is short where the program would exit for it. -/
theorem never_exits {file : List UInt8} {s : State} (h : Reachable (Step file) .init s)
    {act : Action} {stop : Stop} (hstep : s.step file act = .error stop) : stop = .disabled := by
  have inv := inv_of_reachable h
  cases act with
  | visit =>
      simp only [State.step, State.visit] at hstep
      split at hstep
      · rename_i i pc
        obtain ⟨v, run, -⟩ := visitSlot_spec (inv.valid i) s.off s.aioOpNum
        simp [run] at hstep
      · exact (Except.error.inj hstep).symm
  | complete i =>
      simp only [State.step, State.complete] at hstep
      split at hstep
      · cases hstep
      · cases hstep
      · exact (Except.error.inj hstep).symm
  | rescan =>
      simp only [State.step, State.rescan] at hstep
      split at hstep
      · split at hstep
        · split at hstep <;> cases hstep
        · split at hstep
          · cases hstep
          · exact (Except.error.inj hstep).symm
      · exact (Except.error.inj hstep).symm

/-- Four scans over two blocks, where slot `j` reads and writes its block before slot `i`. -/
def secondFirst (i j : Fin AIO_BUFF_NUM) : List Action :=
  List.replicate 8 .visit ++ [.complete j, .rescan] ++ List.replicate 8 .visit ++
    [.complete j, .complete i, .rescan] ++ List.replicate 8 .visit ++ [.complete i, .rescan] ++
    List.replicate 8 .visit ++ [.rescan]

theorem aio_translation_two :
    ∃ s, Reachable (Step (List.replicate 300 65)) .init s ∧ s.pc = .finished ∧
      s.writes.map Prod.fst = [256, 0] ∧
      Counted s ∧ (s.pc = .finished → Translated (List.replicate 300 65) s) := by
  obtain ⟨s, steps, finished, order⟩ :
      ∃ s, Steps (Step (List.replicate 300 65)) .init (secondFirst 0 1) s ∧
        s.pc = .finished ∧ s.writes.map Prod.fst = [256, 0] :=
    Steps.exists_of_foldlM_except (by decide +kernel)
  exact ⟨s, ⟨_, steps⟩, finished, order, aio_translation ⟨_, steps⟩⟩

end UnixProgramming.AioTest
