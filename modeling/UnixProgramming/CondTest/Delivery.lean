import UnixProgramming.CondTest.Queue
import Mathlib.Data.List.Perm.Basic

/-!
# What the work queue of `cond_test1.c` guarantees

The list from `workq` changes under the mutex only, and every other message that is
allocated belongs to one thread: to the producer that has yet to push it, or to the worker
that has taken it. The signal comes behind the unlock. Until it has been sent, its producer
answers for the message on the list.
-/

namespace UnixProgramming.CondTest

open Linked Transition

/-- A thread between its lock and its unlock. -/
def Pc.inside : Pc → Bool
  | .test | .condWait | .take | .advance _ | .unlock _ | .enqLink _ | .enqPush _ | .enqUnlock =>
      true
  | _ => false

/-- The message that belongs to a thread alone. -/
def Pc.cell : Pc → Option Addr
  | .unlock mp | .print mp | .freeData mp | .freeMsg mp => mp
  | .enqLock mp | .enqLink mp | .enqPush mp => some mp
  | _ => none

/-- The message that a producer has yet to push. -/
def Pc.offer : Pc → Option Addr
  | .enqLock mp | .enqLink mp | .enqPush mp => some mp
  | _ => none

def Pc.isWorker : Pc → Bool
  | .lock | .test | .condWait | .waiting | .take | .advance _ | .unlock _ | .print _
  | .freeData _ | .freeMsg _ | .sleep => true
  | _ => false

/-- A producer between its push and its signal. -/
def Pc.beforeSignal : Pc → Bool
  | .enqUnlock | .enqSignal => true
  | _ => false

/-- The successor fields of the allocated messages. -/
def links (heap : Addr → Option Msg) : Links Addr := fun a => (heap a).map Msg.mNext

/-- What a thread knows of the list, and of its pointer. -/
def At (heap : Addr → Option Msg) (workq : Option Addr) : Pc → Prop
  | .condWait => workq = none
  | .take => workq ≠ none
  | .advance mp => mp = workq ∧ workq ≠ none
  | .enqPush mp => links heap mp = some workq
  | .unlock mp | .print mp | .freeData mp | .freeMsg mp => mp ≠ none
  | _ => True

/-- A thread outside knows nothing that the others could change. -/
theorem At.of_outside {heap heap' : Addr → Option Msg} {workq workq' : Option Addr} {pc : Pc}
    (outside : pc.inside = false) (h : At heap workq pc) : At heap' workq' pc := by
  cases pc <;> first | exact h | cases outside

/-- The mutex belongs to the thread between its lock and its unlock. -/
def Owned (s : State) : Prop := ∀ t, (s.pc t).inside = true → s.qlock = some t

/-- The list of the messages from `workq`, and the messages that belong to the threads. -/
structure Memory (heap : Addr → Option Msg) (workq : Option Addr) (pc : Tid → Pc)
    (xs : List Addr) : Prop where
  chain : Chain (links heap) workq xs
  live : ∀ t a, (pc t).cell = some a → heap a ≠ none
  apart : ∀ t a, (pc t).cell = some a → a ∉ xs
  exclusive : ∀ t u a, (pc t).cell = some a → (pc u).cell = some a → t = u
  here : ∀ t, At heap workq (pc t)
  text : ∀ a m, heap a = some m → m.pData = none → ∃ t, pc t = .freeMsg (some a)

section Positions

variable {pc : Tid → Pc} {t u : Tid} {next : Pc}

/-- A property of the moved thread and of each other thread holds of all. -/
theorem forall_update {p : Tid → Pc → Prop} (own : p t next) (others : ∀ u, u ≠ t → p u (pc u)) :
    ∀ u, p u (Function.update pc t next u) := by
  intro u
  by_cases same : u = t
  · subst same
    simpa using own
  · simpa [same] using others u same

theorem Plain.inside {s : State} {old : Pc} (h : Plain s old next)
    (inside : next.inside = true) : old.inside = true := by
  cases h <;> first | rfl | cases inside

end Positions

namespace Owned

variable {s s' : State} {t : Tid} {next : Pc}

/-- A thread that moves keeps the mutex only where it is inside. -/
theorem goto (owned : Owned s) (keep : next.inside = true → (s.pc t).inside = true) :
    Owned (s.goto t next) :=
  forall_update (p := fun u pc => pc.inside = true → s.qlock = some u)
    (fun inside => owned t (keep inside)) fun u _ inside => owned u inside

theorem others_outside (owned : Owned s) (inside : (s.pc t).inside = true) :
    ∀ u, u ≠ t → (s.pc u).inside = false := by
  intro u other
  by_contra h
  have both := owned t inside
  rw [owned u (by simpa using h)] at both
  exact other (Option.some.inj both)

theorem release (owned : Owned s) (inside : (s.pc t).inside = true)
    (outside : next.inside = false) : Owned (s.release t next) :=
  forall_update (p := fun u pc => pc.inside = true → none = some u)
    (fun inside => by simp [outside] at inside)
    fun u other inside' => by simp [owned.others_outside inside u other] at inside'

theorem acquire (owned : Owned s) (free : s.qlock = none) :
    Owned { s.goto t next with qlock := some t } :=
  forall_update (p := fun u pc => pc.inside = true → some t = some u) (fun _ => rfl)
    fun u _ inside => by simp [owned u inside] at free

theorem effect (owned : Owned s) (h : Effect s t s') : Owned s' := by
  cases h with
  | plain move => exact owned.goto move.inside
  | locks free move => exact owned.acquire free
  | unlocks move =>
      generalize hpc : s.pc t = old at move
      cases move with
      | unlock mp => exact owned.release (by rw [hpc]; rfl) rfl
      | enqUnlock => exact owned.release (by rw [hpc]; rfl) rfl
  | condWait at_ => exact (owned.release (by rw [at_]; rfl) rfl : Owned (s.release t .waiting))
  | advance at_ front cell => exact (owned.goto fun _ => by rw [at_]; rfl : Owned (s.goto t _))
  | @freeData a m at_ cell =>
      exact (owned.goto (by simp [Pc.inside]) : Owned (s.goto t (.freeMsg (some a))))
  | freeMsg at_ cell => exact (owned.goto (by simp [Pc.inside]) : Owned (s.goto t .sleep))
  | link at_ cell => exact (owned.goto fun _ => by rw [at_]; rfl : Owned (s.goto t _))
  | push at_ => exact (owned.goto fun _ => by rw [at_]; rfl : Owned (s.goto t _))

end Owned

theorem links_update (heap : Addr → Option Msg) (a : Addr) (v : Option Msg) :
    links (Function.update heap a v) = Function.update (links heap) a (v.map Msg.mNext) := by
  funext b
  by_cases h : b = a
  · subst h
    simp [links]
  · simp [links, h]

namespace Memory

variable {heap : Addr → Option Msg} {workq : Option Addr} {pc : Tid → Pc} {xs : List Addr}
variable {t : Tid} {a : Addr} {next : Pc}

/-- The messages on the list are allocated. -/
theorem linked (mem : Memory heap workq pc xs) (h : a ∈ xs) : heap a ≠ none := by
  obtain ⟨front, back, rfl⟩ := List.append_of_mem h
  obtain ⟨q, hq, -⟩ := mem.chain.suffix
  intro free
  simp [links, free] at hq

/-- A thread that moves keeps its message, or lets go of one that is on the list now. -/
theorem goto (mem : Memory heap workq pc xs)
    (cell : ∀ b, next.cell = some b → (pc t).cell = some b) (here : At heap workq next)
    (kept : ∀ b, pc t ≠ .freeMsg (some b)) :
    Memory heap workq (Function.update pc t next) xs := by
  have had : ∀ u b, (Function.update pc t next u).cell = some b → (pc u).cell = some b :=
    forall_update (p := fun u pc' => ∀ b, pc'.cell = some b → (pc u).cell = some b) cell
      fun _ _ _ h => h
  refine ⟨mem.chain, fun u b h => mem.live u b (had u b h), fun u b h => mem.apart u b (had u b h),
    fun u v b hu hv => mem.exclusive u v b (had u b hu) (had v b hv),
    forall_update (p := fun _ pc' => At heap workq pc') here fun u _ => mem.here u, ?_⟩
  intro b m hb empty
  obtain ⟨u, hu⟩ := mem.text b m hb empty
  have other : u ≠ t := by
    rintro rfl
    exact kept b hu
  exact ⟨u, by simpa [other] using hu⟩

/-- A thread stores to a message that no other thread has and that is not on the list. -/
theorem store {v : Option Msg} (mem : Memory heap workq pc xs)
    (others : ∀ u, u ≠ t → (pc u).cell ≠ some a) (unlinked : a ∉ xs)
    (cell : ∀ b, next.cell = some b → b = a ∧ v ≠ none)
    (here : At (Function.update heap a v) workq next)
    (text : ∀ m, v = some m → m.pData = none → next = .freeMsg (some a))
    (kept : ∀ b, b ≠ a → pc t ≠ .freeMsg (some b)) :
    Memory (Function.update heap a v) workq (Function.update pc t next) xs := by
  have had : ∀ u b, (Function.update pc t next u).cell = some b →
      u = t ∧ b = a ∧ v ≠ none ∨ u ≠ t ∧ b ≠ a ∧ (pc u).cell = some b := by
    intro u b h
    by_cases same : u = t
    · subst same
      exact .inl ⟨rfl, cell b (by simpa using h)⟩
    · have held : (pc u).cell = some b := by simpa [same] using h
      refine .inr ⟨same, ?_, held⟩
      rintro rfl
      exact others u same held
  refine ⟨?_, ?_, ?_, ?_, ?_, ?_⟩
  · rw [links_update]
    exact mem.chain.update_of_notMem unlinked _
  · intro u b h
    obtain ⟨-, rfl, stored⟩ | ⟨-, hb, held⟩ := had u b h
    · simpa using stored
    · simpa [hb] using mem.live u b held
  · intro u b h
    obtain ⟨-, rfl, -⟩ | ⟨-, -, held⟩ := had u b h
    · exact unlinked
    · exact mem.apart u b held
  · intro u w b hu hw
    obtain ⟨ut, ha, -⟩ | ⟨-, hb, heldU⟩ := had u b hu
    · obtain ⟨wt, -, -⟩ | ⟨-, hb, -⟩ := had w b hw
      · rw [ut, wt]
      · exact absurd ha hb
    · obtain ⟨-, ha, -⟩ | ⟨-, -, heldW⟩ := had w b hw
      · exact absurd ha hb
      · exact mem.exclusive u w b heldU heldW
  · refine forall_update (p := fun _ pc' => At (Function.update heap a v) workq pc') here ?_
    intro u other
    have old := mem.here u
    cases hpc : pc u <;> rw [hpc] at old <;> try exact old
    rename_i mp
    have hne : mp ≠ a := by
      rintro rfl
      exact others u other (by rw [hpc]; rfl)
    simpa [At, links, hne] using old
  · intro b m hb empty
    by_cases same : b = a
    · subst same
      refine ⟨t, ?_⟩
      simpa using text m (by simpa using hb) empty
    · obtain ⟨u, hu⟩ := mem.text b m (by simpa [same] using hb) empty
      have other : u ≠ t := by
        rintro rfl
        exact kept b same hu
      exact ⟨u, by simpa [other] using hu⟩

/-- The push of a message that its producer has linked to the front. -/
theorem push (mem : Memory heap workq pc xs) (at_ : pc t = .enqPush a)
    (alone : ∀ u, u ≠ t → (pc u).inside = false) :
    Memory heap (some a) (Function.update pc t .enqUnlock) (a :: xs) := by
  have own : (pc t).cell = some a := by rw [at_]; rfl
  have had : ∀ u b, (Function.update pc t .enqUnlock u).cell = some b →
      u ≠ t ∧ (pc u).cell = some b := by
    intro u b h
    by_cases same : u = t
    · subst same
      simp [Pc.cell] at h
    · exact ⟨same, by simpa [same] using h⟩
  have linked : links heap a = some workq := by
    have here := mem.here t
    rwa [at_] at here
  refine ⟨⟨rfl, workq, linked, mem.chain⟩, fun u b h => mem.live u b (had u b h).2, ?_,
    fun u w b hu hw => mem.exclusive u w b (had u b hu).2 (had w b hw).2,
    forall_update (p := fun _ pc' => At heap (some a) pc') trivial fun u other =>
      (mem.here u).of_outside (alone u other), ?_⟩
  · intro u b h
    obtain ⟨other, held⟩ := had u b h
    intro inList
    obtain rfl | inTail := List.mem_cons.mp inList
    · exact other (mem.exclusive u t b held own)
    · exact mem.apart u b held inTail
  · intro b m hb empty
    obtain ⟨u, hu⟩ := mem.text b m hb empty
    have other : u ≠ t := by
      rintro rfl
      rw [at_] at hu
      cases hu
    exact ⟨u, by simpa [other] using hu⟩

/-- A worker takes the first message off the list. -/
theorem advance {mp : Option Addr} {m : Msg} {ys : List Addr}
    (mem : Memory heap workq pc (a :: ys)) (at_ : pc t = .advance mp) (cell : heap a = some m)
    (alone : ∀ u, u ≠ t → (pc u).inside = false) :
    Memory heap m.mNext (Function.update pc t (.unlock mp)) ys := by
  have distinct := List.nodup_cons.mp mem.chain.nodup
  obtain ⟨front, q, hq, tail⟩ := mem.chain
  have here := mem.here t
  rw [at_] at here
  obtain rfl : mp = some a := here.1.trans front
  have rest : m.mNext = q := by simpa [links, cell] using hq
  have had : ∀ u b, (Function.update pc t (.unlock (some a)) u).cell = some b →
      u = t ∧ b = a ∨ u ≠ t ∧ b ≠ a ∧ (pc u).cell = some b := by
    intro u b h
    by_cases same : u = t
    · subst same
      exact .inl ⟨rfl, by simpa [Pc.cell, eq_comm] using h⟩
    · have held : (pc u).cell = some b := by simpa [same] using h
      refine .inr ⟨same, ?_, held⟩
      rintro rfl
      exact mem.apart u b held List.mem_cons_self
  refine ⟨rest ▸ tail, ?_, ?_, ?_, ?_, ?_⟩
  · intro u b h
    obtain ⟨-, rfl⟩ | ⟨-, -, held⟩ := had u b h
    · simp [cell]
    · exact mem.live u b held
  · intro u b h
    obtain ⟨-, rfl⟩ | ⟨-, -, held⟩ := had u b h
    · exact distinct.1
    · exact fun inTail => mem.apart u b held (List.mem_cons_of_mem a inTail)
  · intro u w b hu hw
    obtain ⟨ut, ha⟩ | ⟨-, hb, heldU⟩ := had u b hu
    · obtain ⟨wt, -⟩ | ⟨-, hb, -⟩ := had w b hw
      · rw [ut, wt]
      · exact absurd ha hb
    · obtain ⟨-, ha⟩ | ⟨-, -, heldW⟩ := had w b hw
      · exact absurd ha hb
      · exact mem.exclusive u w b heldU heldW
  · exact forall_update (p := fun _ pc' => At heap m.mNext pc') (Option.some_ne_none a)
      fun u other => (mem.here u).of_outside (alone u other)
  · intro b m' hb empty
    obtain ⟨u, hu⟩ := mem.text b m' hb empty
    have other : u ≠ t := by
      rintro rfl
      rw [at_] at hu
      cases hu
    exact ⟨u, by simpa [other] using hu⟩

end Memory

/-- Where the messages of the calls so far are: on the list or taken, each once, and with the
producers the ones not yet pushed. -/
structure Numbered (pc : Tid → Pc) (number : Addr → Nat) (calls : Nat) (pushed : List Nat)
    (taken : List (Tid × Nat)) (xs : List Addr) : Prop where
  delivered : (xs.map number ++ taken.map Prod.snd).Perm pushed
  once : pushed.Nodup
  known : ∀ n ∈ pushed, n < calls
  offered : ∀ t a, (pc t).offer = some a → number a < calls ∧ number a ∉ pushed
  distinct : ∀ t u a b, (pc t).offer = some a → (pc u).offer = some b → number a = number b →
    t = u

theorem cell_of_offer {pc : Pc} {a : Addr} (h : pc.offer = some a) : pc.cell = some a := by
  cases pc <;> first | exact h | cases h

namespace Numbered

variable {heap : Addr → Option Msg} {workq : Option Addr} {pc : Tid → Pc} {xs : List Addr}
variable {number : Addr → Nat} {calls : Nat} {pushed : List Nat} {taken : List (Tid × Nat)}
variable {t : Tid} {a : Addr} {next : Pc}

theorem goto (num : Numbered pc number calls pushed taken xs)
    (offer : ∀ b, next.offer = some b → (pc t).offer = some b) :
    Numbered (Function.update pc t next) number calls pushed taken xs := by
  have had : ∀ u b, (Function.update pc t next u).offer = some b → (pc u).offer = some b :=
    forall_update (p := fun u pc' => ∀ b, pc'.offer = some b → (pc u).offer = some b) offer
      fun _ _ _ h => h
  exact ⟨num.delivered, num.once, num.known, fun u b h => num.offered u b (had u b h),
    fun u w b c hu hw => num.distinct u w b c (had u b hu) (had w c hw)⟩

/-- A call gets the next number. -/
theorem callEnqueue (num : Numbered pc number calls pushed taken xs)
    (mem : Memory heap workq pc xs) (free : heap a = none) :
    Numbered (Function.update pc t (.enqLock a)) (Function.update number a calls) (calls + 1)
      pushed taken xs := by
  have had : ∀ u b, (Function.update pc t (.enqLock a) u).offer = some b →
      u = t ∧ b = a ∨ u ≠ t ∧ b ≠ a ∧ (pc u).offer = some b := by
    intro u b h
    by_cases same : u = t
    · subst same
      exact .inl ⟨rfl, by simpa [Pc.offer, eq_comm] using h⟩
    · have offer : (pc u).offer = some b := by simpa [same] using h
      refine .inr ⟨same, ?_, offer⟩
      rintro rfl
      exact mem.live u b (cell_of_offer offer) free
  have unlinked : a ∉ xs := fun h => mem.linked h free
  refine ⟨?_, num.once, fun n h => (num.known n h).trans (Nat.lt_succ_self calls), ?_, ?_⟩
  · have same : xs.map (Function.update number a calls) = xs.map number := by
      apply List.map_congr_left
      intro b hb
      have hne : b ≠ a := by
        rintro rfl
        exact unlinked hb
      simp [hne]
    rw [same]
    exact num.delivered
  · intro u b h
    obtain ⟨-, rfl⟩ | ⟨-, hb, offer⟩ := had u b h
    · exact ⟨by simp, fun again => by simpa using num.known _ again⟩
    · have old := num.offered u b offer
      rw [Function.update_of_ne hb]
      exact ⟨old.1.trans (Nat.lt_succ_self calls), old.2⟩
  · intro u w b c hu hw same
    obtain ⟨ut, rfl⟩ | ⟨-, hb, offerU⟩ := had u b hu
    · obtain ⟨wt, -⟩ | ⟨-, hc, offerW⟩ := had w c hw
      · rw [ut, wt]
      · have old := (num.offered w c offerW).1
        simp [hc] at same
        omega
    · obtain ⟨-, rfl⟩ | ⟨-, hc, offerW⟩ := had w c hw
      · have old := (num.offered u b offerU).1
        simp [hb] at same
        omega
      · rw [Function.update_of_ne hb, Function.update_of_ne hc] at same
        exact num.distinct u w b c offerU offerW same

theorem push (num : Numbered pc number calls pushed taken xs) (at_ : pc t = .enqPush a) :
    Numbered (Function.update pc t .enqUnlock) number calls (number a :: pushed) taken
      (a :: xs) := by
  have own : (pc t).offer = some a := by rw [at_]; rfl
  have fresh := num.offered t a own
  have had : ∀ u b, (Function.update pc t .enqUnlock u).offer = some b →
      u ≠ t ∧ (pc u).offer = some b := by
    intro u b h
    by_cases same : u = t
    · subst same
      simp [Pc.offer] at h
    · exact ⟨same, by simpa [same] using h⟩
  refine ⟨num.delivered.cons _, List.nodup_cons.mpr ⟨fresh.2, num.once⟩, ?_, ?_,
    fun u w b c hu hw => num.distinct u w b c (had u b hu).2 (had w c hw).2⟩
  · intro n h
    obtain rfl | old := List.mem_cons.mp h
    · exact fresh.1
    · exact num.known n old
  · intro u b h
    obtain ⟨other, offer⟩ := had u b h
    have old := num.offered u b offer
    refine ⟨old.1, fun again => ?_⟩
    obtain same | before := List.mem_cons.mp again
    · exact other (num.distinct u t b a offer own same)
    · exact old.2 before

theorem advance {mp : Option Addr} (num : Numbered pc number calls pushed taken (a :: xs)) :
    Numbered (Function.update pc t (.unlock mp)) number calls pushed ((t, number a) :: taken)
      xs := by
  have moved : Numbered (Function.update pc t (.unlock mp)) number calls pushed taken (a :: xs) :=
    num.goto (by simp [Pc.offer])
  exact ⟨List.perm_middle.trans num.delivered, moved.once, moved.known, moved.offered,
    moved.distinct⟩

end Numbered

/-- Whoever waits un-woken for a list that is not empty has a producer to wake someone. -/
structure Wakes (workq : Option Addr) (qready : List Tid) (pc : Tid → Pc) : Prop where
  waiting : ∀ t ∈ qready, pc t = .waiting
  answered : workq ≠ none → (∃ t, (pc t).isWorker = true) →
    (∀ t, (pc t).isWorker = true → t ∈ qready) → ∃ t, (pc t).beforeSignal = true

namespace Wakes

variable {workq workq' : Option Addr} {qready qready' : List Tid} {pc : Tid → Pc}
variable {t : Tid} {next : Pc}

theorem awake (wakes : Wakes workq qready pc) (other : pc t ≠ .waiting) : t ∉ qready :=
  fun h => other (wakes.waiting t h)

theorem waiting_update (waiting : ∀ u ∈ qready, pc u = .waiting) (awake : t ∉ qready) :
    ∀ u ∈ qready, Function.update pc t next u = .waiting := by
  intro u hu
  have other : u ≠ t := by
    rintro rfl
    exact awake hu
  simpa [other] using waiting u hu

/-- A worker that is not among the waiters is one to take the message. -/
theorem worker (waiting : ∀ u ∈ qready, pc u = .waiting) (awake : t ∉ qready)
    (isWorker : next.isWorker = true) : Wakes workq' qready (Function.update pc t next) where
  waiting := waiting_update waiting awake
  answered _ _ all := absurd (all t (by simpa using isWorker)) awake

/-- A producer before its push leaves everything as it is. -/
theorem producer (wakes : Wakes workq qready pc) (wasNot : (pc t).isWorker = false)
    (isNot : next.isWorker = false) (unsignalled : (pc t).beforeSignal = false) :
    Wakes workq qready (Function.update pc t next) := by
  have other : ∀ u, (pc u).isWorker = true → u ≠ t := by
    rintro u h rfl
    rw [wasNot] at h
    cases h
  have awake : t ∉ qready := wakes.awake fun h => by simp [h, Pc.isWorker] at wasNot
  refine ⟨waiting_update wakes.waiting awake, fun nonempty exists_worker all => ?_⟩
  obtain ⟨w, hw⟩ := exists_worker
  have hwt : w ≠ t := by
    rintro rfl
    simp [isNot] at hw
  obtain ⟨u, hu⟩ := wakes.answered nonempty ⟨w, by simpa [hwt] using hw⟩ fun u hu =>
    all u (by simpa [other u hu] using hu)
  have hut : u ≠ t := by
    rintro rfl
    rw [unsignalled] at hu
    cases hu
  exact ⟨u, by simpa [hut] using hu⟩

/-- A producer behind its push answers for the message. -/
theorem pushed (waiting : ∀ u ∈ qready, pc u = .waiting) (awake : t ∉ qready)
    (before : next.beforeSignal = true) : Wakes workq' qready (Function.update pc t next) where
  waiting := waiting_update waiting awake
  answered _ _ _ := ⟨t, by simpa using before⟩

/-- The signal takes a waiter off the list of waiters, and that one is a worker. -/
theorem signal (wakes : Wakes workq qready pc) {woken : List Tid} (at_ : pc t = .enqSignal)
    (among : ∀ u ∈ woken, u ∈ qready) (some : qready ≠ [] → woken ≠ []) :
    Wakes workq (qready.filter fun u => u ∉ woken) (Function.update pc t .outside) := by
  have awake : t ∉ qready := wakes.awake (by simp [at_])
  have less : ∀ u ∈ qready.filter fun u => u ∉ woken, u ∈ qready := fun u h =>
    List.mem_of_mem_filter h
  refine ⟨waiting_update (fun u h => wakes.waiting u (less u h)) fun h => awake (less t h), ?_⟩
  rintro - ⟨w, hw⟩ all
  have waiters : qready ≠ [] := List.ne_nil_of_mem (less w (all w hw))
  obtain ⟨u, hu⟩ := List.exists_mem_of_ne_nil woken (some waiters)
  have other : u ≠ t := by
    rintro rfl
    exact awake (among u hu)
  have isWorker : (Function.update pc t .outside u).isWorker = true := by
    simp [other, wakes.waiting u (among u hu), Pc.isWorker]
  simpa [hu] using all u isWorker

end Wakes

structure Inv (s : State) (xs : List Addr) : Prop where
  owned : Owned s
  memory : Memory s.heap s.workq s.pc xs
  numbered : Numbered s.pc s.number s.calls s.pushed s.taken xs
  wakes : Wakes s.workq s.qready s.pc

namespace Inv

variable {s s' : State} {xs : List Addr} {t : Tid} {act : Action}

theorem init : Inv .init [] where
  owned t inside := by simp [State.init, Pc.inside] at inside
  memory := by
    refine ⟨rfl, ?_, ?_, ?_, fun _ => trivial, ?_⟩ <;> simp [State.init, Pc.cell]
  numbered := by
    constructor <;> simp [State.init, Pc.offer]
  wakes := by
    constructor <;> simp [State.init]

/-- Only the owner of the mutex is inside, where the list is used. -/
theorem alone (inv : Inv s xs) {old : Pc} (at_ : s.pc t = old) (inside : old.inside = true) :
    ∀ u, u ≠ t → (s.pc u).inside = false :=
  inv.owned.others_outside (by rw [at_]; exact inside)

/-- Nobody else has the message of a thread, and it is not on the list. -/
theorem own_cell (inv : Inv s xs) {a : Addr} (cell : (s.pc t).cell = some a) :
    (∀ u, u ≠ t → (s.pc u).cell ≠ some a) ∧ a ∉ xs :=
  ⟨fun u other held => other (inv.memory.exclusive u t a held cell), inv.memory.apart t a cell⟩

theorem plain (inv : Inv s xs) {next : Pc} (move : Plain s (s.pc t) next) :
    Inv (s.goto t next) xs := by
  have owned := inv.owned.effect (.plain move)
  have here := inv.memory.here t
  generalize hpc : s.pc t = old at move here
  have awake : old ≠ .waiting → t ∉ s.qready := fun h => inv.wakes.awake (by rwa [hpc])
  cases move with
  | empty empty =>
      exact ⟨owned, inv.memory.goto (by simp [Pc.cell]) empty (by simp [hpc]),
        inv.numbered.goto (by simp [Pc.offer]), .worker inv.wakes.waiting (awake (by simp)) rfl⟩
  | full full =>
      exact ⟨owned, inv.memory.goto (by simp [Pc.cell]) full (by simp [hpc]),
        inv.numbered.goto (by simp [Pc.offer]), .worker inv.wakes.waiting (awake (by simp)) rfl⟩
  | take =>
      exact ⟨owned, inv.memory.goto (by simp [Pc.cell]) ⟨rfl, here⟩ (by simp [hpc]),
        inv.numbered.goto (by simp [Pc.offer]), .worker inv.wakes.waiting (awake (by simp)) rfl⟩
  | print mp =>
      exact ⟨owned, inv.memory.goto (by simp [hpc, Pc.cell]) here (by simp [hpc]),
        inv.numbered.goto (by simp [Pc.offer]), .worker inv.wakes.waiting (awake (by simp)) rfl⟩
  | sleep =>
      exact ⟨owned, inv.memory.goto (by simp [Pc.cell]) trivial (by simp [hpc]),
        inv.numbered.goto (by simp [Pc.offer]), .worker inv.wakes.waiting (awake (by simp)) rfl⟩

theorem locks (inv : Inv s xs) {next : Pc} (free : s.qlock = none)
    (move : Locks s t (s.pc t) next) : Inv { s.goto t next with qlock := some t } xs := by
  have owned := inv.owned.effect (.locks free move)
  generalize hpc : s.pc t = old at move
  cases move with
  | lock =>
      have awake : t ∉ s.qready := inv.wakes.awake (by simp [hpc])
      exact ⟨owned, inv.memory.goto (by simp [Pc.cell]) trivial (by simp [hpc]),
        inv.numbered.goto (by simp [Pc.offer]), .worker inv.wakes.waiting awake rfl⟩
  | woken awake =>
      exact ⟨owned, inv.memory.goto (by simp [Pc.cell]) trivial (by simp [hpc]),
        inv.numbered.goto (by simp [Pc.offer]), .worker inv.wakes.waiting awake rfl⟩
  | enqLock mp =>
      exact ⟨owned, inv.memory.goto (by simp [hpc, Pc.cell]) trivial (by simp [hpc]),
        inv.numbered.goto (by simp [hpc, Pc.offer]),
        inv.wakes.producer (by rw [hpc]; rfl) rfl (by rw [hpc]; rfl)⟩

theorem unlocks (inv : Inv s xs) {next : Pc} (move : Unlocks (s.pc t) next) :
    Inv (s.release t next) xs := by
  have owned := inv.owned.effect (.unlocks move)
  have here := inv.memory.here t
  generalize hpc : s.pc t = old at move here
  have awake : t ∉ s.qready := inv.wakes.awake (by rw [hpc]; cases move <;> simp)
  cases move with
  | unlock mp =>
      exact ⟨owned, inv.memory.goto (by simp [hpc, Pc.cell]) here (by simp [hpc]),
        inv.numbered.goto (by simp [Pc.offer]), .worker inv.wakes.waiting awake rfl⟩
  | enqUnlock =>
      exact ⟨owned, inv.memory.goto (by simp [Pc.cell]) trivial (by simp [hpc]),
        inv.numbered.goto (by simp [Pc.offer]), .pushed inv.wakes.waiting awake rfl⟩

/-- A worker waits only for an empty list. -/
theorem condWait (inv : Inv s xs) (at_ : s.pc t = .condWait) :
    Inv { s.release t .waiting with qready := t :: s.qready } xs := by
  have empty : s.workq = none := by
    have here := inv.memory.here t
    rwa [at_] at here
  refine ⟨inv.owned.effect (.condWait at_),
    inv.memory.goto (by simp [Pc.cell]) trivial (by simp [at_]),
    inv.numbered.goto (by simp [Pc.offer]), fun u hu => ?_, fun nonempty => absurd empty nonempty⟩
  by_cases same : u = t
  · simp [State.release, State.goto, same]
  · have old : u ∈ s.qready := by simpa [same] using hu
    simpa [State.release, State.goto, same] using inv.wakes.waiting u old

theorem run (inv : Inv s xs) (h : Effect s t s') : ∃ ys, Inv s' ys := by
  have owned := inv.owned.effect h
  have awake : s.pc t ≠ .waiting → t ∉ s.qready := inv.wakes.awake
  cases h with
  | plain move => exact ⟨xs, inv.plain move⟩
  | locks free move => exact ⟨xs, inv.locks free move⟩
  | unlocks move => exact ⟨xs, inv.unlocks move⟩
  | condWait at_ => exact ⟨xs, inv.condWait at_⟩
  | @advance mp a m at_ front cell =>
      obtain ⟨memory, numbered⟩ := And.intro inv.memory inv.numbered
      rw [front] at memory
      cases xs with
      | nil => cases memory.chain
      | cons b ys =>
          obtain rfl : a = b := Option.some.inj memory.chain.1
          exact ⟨ys, owned, memory.advance at_ cell (inv.alone at_ rfl), numbered.advance,
            .worker inv.wakes.waiting (awake (by simp [at_])) rfl⟩
  | @freeData a m at_ cell =>
      obtain ⟨others, unlinked⟩ := inv.own_cell (t := t) (a := a) (by rw [at_]; rfl)
      exact ⟨xs, owned,
        inv.memory.store others unlinked (by simp [Pc.cell, eq_comm]) (Option.some_ne_none a)
          (by simp) (by simp [at_]),
        inv.numbered.goto (by simp [Pc.offer]),
        .worker inv.wakes.waiting (awake (by simp [at_])) rfl⟩
  | @freeMsg a m at_ cell =>
      obtain ⟨others, unlinked⟩ := inv.own_cell (t := t) (a := a) (by rw [at_]; rfl)
      exact ⟨xs, owned,
        inv.memory.store others unlinked (by simp [Pc.cell]) trivial (by simp)
          (by simp [at_, eq_comm]),
        inv.numbered.goto (by simp [Pc.offer]),
        .worker inv.wakes.waiting (awake (by simp [at_])) rfl⟩
  | @link a m at_ cell =>
      obtain ⟨others, unlinked⟩ := inv.own_cell (t := t) (a := a) (by rw [at_]; rfl)
      have text : m.pData ≠ none := by
        intro empty
        obtain ⟨u, hu⟩ := inv.memory.text a m cell empty
        obtain rfl := inv.memory.exclusive u t a (by rw [hu]; rfl) (by rw [at_]; rfl)
        rw [at_] at hu
        cases hu
      exact ⟨xs, owned,
        inv.memory.store others unlinked (by simp [Pc.cell, eq_comm]) (by simp [At, links])
          (by simpa using text) (by simp [at_]),
        inv.numbered.goto (by simp [at_, Pc.offer]),
        inv.wakes.producer (by rw [at_]; rfl) rfl (by rw [at_]; rfl)⟩
  | @push a at_ =>
      exact ⟨a :: xs, owned, inv.memory.push at_ (inv.alone at_ rfl), inv.numbered.push at_,
        .pushed inv.wakes.waiting (awake (by simp [at_])) rfl⟩

theorem createWorker (inv : Inv s xs) (at_ : s.pc t = .outside) : Inv (s.goto t .lock) xs :=
  ⟨inv.owned.goto (by simp [Pc.inside]),
    inv.memory.goto (by simp [Pc.cell]) trivial (by simp [at_]),
    inv.numbered.goto (by simp [Pc.offer]),
    .worker inv.wakes.waiting (inv.wakes.awake (by simp [at_])) rfl⟩

theorem callEnqueue (inv : Inv s xs) {mp : Addr} {msg : Msg}
    (h : s.callEnqueue t mp msg = .ok s') : Inv s' xs := by
  rw [State.callEnqueue] at h
  split at h
  · rename_i guard
    obtain ⟨at_, free, text⟩ := guard
    cases h
    have unheld : ∀ u, (s.pc u).cell ≠ some mp := fun u held => inv.memory.live u mp held free
    have unlinked : mp ∉ xs := fun linked => inv.memory.linked linked free
    exact ⟨(inv.owned.goto (by simp [Pc.inside]) : Owned (s.goto t (.enqLock mp))),
      inv.memory.store (fun u _ => unheld u) unlinked (by simp [Pc.cell, eq_comm]) trivial
        (by simpa using text) (by simp [at_]),
      inv.numbered.callEnqueue inv.memory free,
      inv.wakes.producer (by rw [at_]; rfl) rfl (by rw [at_]; rfl)⟩
  · cases h

theorem signal (inv : Inv s xs) {woken : List Tid} (h : s.signal t woken = .ok s') :
    Inv s' xs := by
  rw [State.signal] at h
  split at h
  · rename_i guard
    obtain ⟨at_, among, some⟩ := guard
    cases h
    exact ⟨(inv.owned.goto (by simp [Pc.inside]) : Owned (s.goto t .outside)),
      inv.memory.goto (by simp [Pc.cell]) trivial (by simp [at_]),
      inv.numbered.goto (by simp [Pc.offer]), inv.wakes.signal at_ among some⟩
  · cases h

theorem wakeSpuriously (inv : Inv s xs) (waits : t ∈ s.qready) :
    Inv { s with qready := s.qready.filter fun u => u ≠ t } xs := by
  refine ⟨inv.owned, inv.memory, inv.numbered, fun u hu => ?_, fun _ _ all => ?_⟩
  · exact inv.wakes.waiting u (List.mem_of_mem_filter hu)
  · have isWorker : (s.pc t).isWorker = true := by rw [inv.wakes.waiting t waits]; rfl
    simpa using all t isWorker

theorem step (inv : Inv s xs) (hstep : Step s act s') : ∃ ys, Inv s' ys := by
  cases act with
  | createWorker t =>
      simp only [Step, State.step] at hstep
      split at hstep
      · cases hstep
        exact ⟨xs, inv.createWorker ‹_›⟩
      · cases hstep
  | callEnqueue t mp msg => exact ⟨xs, inv.callEnqueue hstep⟩
  | run t => exact inv.run (effect_of_run hstep)
  | signal t woken => exact ⟨xs, inv.signal hstep⟩
  | wakeSpuriously t =>
      simp only [Step, State.step] at hstep
      split at hstep
      · cases hstep
        exact ⟨xs, inv.wakeSpuriously ‹_›⟩
      · cases hstep

end Inv

theorem inv_of_reachable {s : State} (h : Reachable Step .init s) : ∃ xs, Inv s xs :=
  h.invariant (I := fun s => ∃ xs, Inv s xs) ⟨[], .init⟩ fun _ _ _ ⟨_, inv⟩ hstep => inv.step hstep

namespace Inv

variable {s s' : State} {xs : List Addr} {t : Tid} {act : Action} {a : Addr} {m : Msg}

theorem deref_of_live {p : Option Addr} (front : p = some a) (live : s.heap a ≠ none) :
    ∃ m, s.deref p = .ok (a, m) ∧ s.heap a = some m := by
  cases cell : s.heap a with
  | none => exact absurd cell live
  | some m => exact ⟨m, by simp [State.deref, front, cell], rfl⟩

/-- Before `free(mp->p_data)` the text of a worker's message is there. -/
theorem text_there (inv : Inv s xs) (holds : (s.pc t).cell = some a)
    (notFreed : s.pc t ≠ .freeMsg (some a)) (cell : s.heap a = some m) : m.pData ≠ none := by
  intro empty
  obtain ⟨u, hu⟩ := inv.memory.text a m cell empty
  obtain rfl := inv.memory.exclusive u t a (by rw [hu]; rfl) holds
  exact notFreed hu

/-- No instruction meets a null pointer or a message that has been freed. -/
theorem run_no_fault (inv : Inv s xs) (t : Tid) (f : Fault) : s.run t ≠ .error (.fault f) := by
  have here := inv.memory.here t
  have holds := inv.memory.live t
  have text : ∀ a m, (s.pc t).cell = some a → s.pc t ≠ .freeMsg (some a) → s.heap a = some m →
      m.pData ≠ none := fun _ _ => inv.text_there
  have acquire (next : Pc) : s.acquire t next ≠ .error (.fault f) := by
    rw [State.acquire]
    split <;> simp
  unfold State.run
  cases at_ : s.pc t with
  | outside | test | condWait | take | unlock | sleep | enqPush | enqUnlock | enqSignal => simp
  | lock | enqLock mp => exact acquire _
  | waiting =>
      dsimp only
      split
      · exact acquire _
      · simp
  | advance mp =>
      rw [at_] at here
      obtain ⟨a, front⟩ := Option.ne_none_iff_exists'.mp here.2
      have linked : a ∈ xs := by
        have chain := inv.memory.chain
        rw [front] at chain
        cases xs with
        | nil => cases chain
        | cons b ys =>
            obtain rfl : a = b := Option.some.inj chain.1
            exact List.mem_cons_self
      obtain ⟨m, call, -⟩ := deref_of_live front (inv.memory.linked linked)
      simp [call]
  | print mp =>
      rw [at_] at here holds text
      obtain ⟨a, rfl⟩ := Option.ne_none_iff_exists'.mp here
      obtain ⟨m, call, cell⟩ := deref_of_live rfl (holds a rfl)
      simp [call, text a m rfl (by simp) cell]
  | freeData mp =>
      rw [at_] at here holds text
      obtain ⟨a, rfl⟩ := Option.ne_none_iff_exists'.mp here
      obtain ⟨m, call, cell⟩ := deref_of_live rfl (holds a rfl)
      simp [call, text a m rfl (by simp) cell]
  | freeMsg mp =>
      rw [at_] at here holds
      obtain ⟨a, rfl⟩ := Option.ne_none_iff_exists'.mp here
      obtain ⟨m, call, -⟩ := deref_of_live rfl (holds a rfl)
      simp [call]
  | enqLink mp =>
      rw [at_] at holds
      obtain ⟨m, call, -⟩ := deref_of_live rfl (holds mp rfl)
      simp [call]

theorem step_no_fault (inv : Inv s xs) (act : Action) (f : Fault) :
    s.step act ≠ .error (.fault f) := by
  cases act with
  | run t => exact inv.run_no_fault t f
  | createWorker t | wakeSpuriously t =>
      simp only [State.step]
      split <;> simp
  | callEnqueue t mp msg =>
      simp only [State.step, State.callEnqueue]
      split <;> simp
  | signal t woken =>
      simp only [State.step, State.signal]
      split <;> simp

/-- A message that an instruction frees has left the list. -/
theorem freed_unlinked (inv : Inv s xs) (hstep : Step s act s') (live : s.heap a ≠ none)
    (gone : s'.heap a = none) : a ∉ xs := by
  cases act with
  | run t =>
      have here := effect_of_run hstep
      cases here with
      | plain | locks | unlocks | condWait | advance | push => exact absurd gone live
      | @freeData b m at_ cell | @link b m at_ cell =>
          by_cases same : a = b
          · simp [State.goto, State.store, same] at gone
          · exact absurd (by simpa [State.goto, State.store, same] using gone) live
      | @freeMsg b m at_ cell =>
          by_cases same : a = b
          · subst same
            exact (inv.own_cell (by rw [at_]; rfl)).2
          · exact absurd (by simpa [State.goto, State.store, same] using gone) live
  | createWorker t | wakeSpuriously t =>
      simp only [Step, State.step] at hstep
      split at hstep
      · cases hstep
        exact absurd gone live
      · cases hstep
  | callEnqueue t mp msg =>
      simp only [Step, State.step, State.callEnqueue] at hstep
      split at hstep
      · cases hstep
        by_cases same : a = mp
        · simp [State.goto, State.store, same] at gone
        · exact absurd (by simpa [State.goto, State.store, same] using gone) live
      · cases hstep
  | signal t woken =>
      simp only [Step, State.step, State.signal] at hstep
      split at hstep
      · cases hstep
        exact absurd gone live
      · cases hstep

end Inv

/-- Each message is delivered exactly once, safely, and no wakeup is lost. Where there is no
worker at all, there is nobody to wake. -/
structure Delivers (s : State) : Prop where
  list : ∃ xs, Chain (links s.heap) s.workq xs ∧
    (xs.map s.number ++ s.taken.map Prod.snd).Perm s.pushed ∧ s.pushed.Nodup
  takenOnce : (s.taken.map Prod.snd).Nodup
  noFault : ∀ act f, s.step act ≠ .error (.fault f)
  freedUnlinked : ∀ act s' a, Step s act s' → s.heap a ≠ none → s'.heap a = none →
    ∀ xs, Chain (links s.heap) s.workq xs → a ∉ xs
  noLostWakeup : ¬ (s.workq ≠ none ∧ (∃ t, (s.pc t).isWorker = true) ∧
    (∀ t, (s.pc t).isWorker = true → s.pc t = .waiting ∧ t ∈ s.qready) ∧
    ∀ t, (s.pc t).beforeSignal = false)

/-- The work queue in every interleaving of any number of producers and workers. -/
theorem delivers {s : State} (h : Reachable Step .init s) : Delivers s := by
  obtain ⟨xs, inv⟩ := inv_of_reachable h
  have taken := inv.numbered.delivered.nodup_iff.mpr inv.numbered.once
  refine ⟨⟨xs, inv.memory.chain, inv.numbered.delivered, inv.numbered.once⟩,
    (List.nodup_append.mp taken).2.1, inv.step_no_fault, ?_, ?_⟩
  · intro act s' a hstep live gone ys chain
    rw [chain.unique inv.memory.chain]
    exact inv.freed_unlinked hstep live gone
  · rintro ⟨nonempty, exists_worker, all, none⟩
    obtain ⟨t, ht⟩ := inv.wakes.answered nonempty exists_worker fun t ht => (all t ht).2
    rw [none t] at ht
    cases ht

/-- The worker that the signal wakes finds that another one has taken the message. -/
theorem delivers_stolen :
    ∃ s, Reachable Step .init s ∧ s.taken = [(2, 0)] ∧ s.qready = [1] ∧ s.heap 8 = none ∧
      Delivers s := by
  have run : ∃ s, Steps Step .init
      [.createWorker 1, .run 1, .run 1, .run 1, .callEnqueue 3 8 ⟨none, some [104, 105], 20⟩,
        .run 3, .run 3, .run 3, .run 3, .createWorker 2, .run 2, .signal 3 [1], .run 2, .run 2,
        .run 2, .run 2, .run 1, .run 1, .run 1, .run 2, .run 2, .run 2] s ∧
      s.taken = [(2, 0)] ∧ s.qready = [1] ∧ s.heap 8 = none :=
    ⟨_, Steps.of_foldlM_except rfl, rfl, rfl, rfl⟩
  obtain ⟨s, steps, taken, waiters, freed⟩ := run
  exact ⟨s, ⟨_, steps⟩, taken, waiters, freed, delivers ⟨_, steps⟩⟩

end UnixProgramming.CondTest
