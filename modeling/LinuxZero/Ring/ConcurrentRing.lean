import LinuxZero.Lib.Reservation
import LinuxZero.Ring.RingRuns

/-! # The ring with many producers and consumers

Every access to a head, a tail or a slot is one step of one thread, in any interleaving. A call loads its own head
and the tail of the other side, moves the head, copies one element at a time and waits with the tail until all
earlier calls of its side are done.
-/

namespace LinuxZero.Ring

/-- Which of the two indices a call moves. -/
inductive RingSide
  | prod
  | cons
deriving DecidableEq, Repr

/-- The arguments of `__rte_ring_do_enqueue` and of `__rte_ring_do_dequeue`; `single` is `is_sp` or `is_sc`. -/
structure RingRequest (α : Type*) where
  side : RingSide
  obj_table : ℕ → α
  n : UInt32
  behavior : RteRingQueueBehavior
  single : UInt32

/-- Where a thread is. `pos` is the loaded head before reduction to 32 bits; no step but `Careful` looks at it. -/
inductive RingPhase (α : Type*)
  | idle
  /-- At the top of the loop, before the load of the own head. -/
  | loadHead (req : RingRequest α)
  /-- Before the tail of the other side is read. -/
  | loadTail (req : RingRequest α) (old_head : UInt32) (pos : ℕ)
  /-- Before the store to the own head, or the exchange. -/
  | exchange (req : RingRequest α) (old_head n entries : UInt32) (pos : ℕ)
  /-- In `ENQUEUE_PTRS` or `DEQUEUE_PTRS`, with `done` elements copied. -/
  | copy (req : RingRequest α) (old_head n entries : UInt32) (pos done : ℕ) (obj_table : ℕ → α)
  /-- In `update_tail`. -/
  | updateTail (req : RingRequest α) (old_head n entries : UInt32) (pos : ℕ) (obj_table : ℕ → α)

/-- The ring, the threads, the calls that have returned in this order, and how far the heads have come. -/
structure ConcurrentRing (α : Type*) where
  ring : RteRing α
  thread : ℕ → RingPhase α
  returned : List (RingRequest α × Outcome α) := []
  headPos : RingSide → ℕ := fun _ => 0

inductive ConcurrentRingEvent (α : Type*)
  | call (t : ℕ) (req : RingRequest α)
  | step (t : ℕ)

variable {α : Type*}

namespace RteRing

variable (r : RteRing α)

def headtail : RingSide → RteRingHeadtail
  | .prod => r.prod
  | .cons => r.cons

def setHeadtail (ht : RteRingHeadtail) : RingSide → RteRing α
  | .prod => { r with prod := ht }
  | .cons => { r with cons := ht }

/-- `free_entries` of a producer and `entries` of a consumer. -/
def entries (old_head : UInt32) : RingSide → UInt32
  | .prod => r.capacity + r.cons.tail - old_head
  | .cons => r.prod.tail - old_head

end RteRing

instance : ∀ phase : RingPhase α, Decidable (phase = .idle)
  | .idle => .isTrue rfl
  | .loadHead _ | .loadTail _ _ _ | .exchange _ _ _ _ _ | .copy _ _ _ _ _ _ _ | .updateTail
      _ _ _ _ _ _ => .isFalse (by rintro ⟨⟩)

/-- The request that a thread is working on. -/
def RingPhase.request : RingPhase α → Option (RingRequest α)
  | .idle => none
  | .loadHead req | .loadTail req _ _ | .exchange req _ _ _ _ | .copy req _ _ _ _ _ _ | .updateTail
      req _ _ _ _ _ => some req

/-- The positions that a thread has reserved by moving the head of the side. -/
def RingPhase.held (side : RingSide) : RingPhase α → Option (ℕ × ℕ)
  | .copy req _ n _ pos _ _ | .updateTail req _ n _ pos _ => if req.side = side
      then some (pos, pos + n.toNat) else none
  | _ => none

/-- The slots that the copy of a running call accesses. -/
def RingPhase.slots (ring : RteRing α) : RingPhase α → List UInt32
  | .copy _ old_head n _ _ _ _ | .updateTail _ old_head n _ _ _ => (ring.copyPtrs old_head n).map Prod.snd
  | _ => []

/-- The objects that the calls of one side have moved, call by call. -/
def moved (side : RingSide) (returned : List (RingRequest α × Outcome α)) : List α :=
  (returned.filter fun call => call.1.side = side).flatMap fun call =>
    (List.range call.2.n.toNat).map call.2.obj_table

namespace ConcurrentRing

def initial (ring : RteRing α) : ConcurrentRing α where
  ring := ring
  thread _ := .idle

section Functions

variable (s : ConcurrentRing α)

def setThread (t : ℕ) (phase : RingPhase α) : ConcurrentRing α :=
  { s with thread := Function.update s.thread t phase }

/-- A call returns; the slots are those that it has accessed. -/
def finish (t : ℕ) (req : RingRequest α) (old_head n entries : UInt32) (obj_table : ℕ → α) :
    ConcurrentRing α :=
  { s.setThread t .idle with
    returned := s.returned ++
      [(req, { n, entries := entries - n, obj_table,
               slots := (s.ring.copyPtrs old_head n).map Prod.snd })] }

/-- The own head is at its new value. -/
def moveHead (side : RingSide) (head n : UInt32) : ConcurrentRing α :=
  { s with
    ring := s.ring.setHeadtail { s.ring.headtail side with head := head } side
    headPos := Function.update s.headPos side (s.headPos side + n.toNat) }

/-- One element of a copy: into its slot, or out of it. -/
def copyOne (t : ℕ) (req : RingRequest α) (old_head n entries : UInt32) (pos done : ℕ) (obj_table : ℕ → α)
    (pair : UInt32 × UInt32) : ConcurrentRing α :=
  match req.side with
  | .prod =>
    { s with ring := { s.ring with
      ring := Function.update s.ring.ring pair.2.toNat (obj_table pair.1.toNat) } }.setThread t
      (.copy req old_head n entries pos (done + 1) obj_table)
  | .cons =>
    s.setThread t
      (.copy req old_head n entries pos (done + 1)
        (Function.update obj_table pair.1.toNat (s.ring.ring pair.2.toNat)))

/-- The next step of a thread. -/
def advance (t : ℕ) : ConcurrentRing α :=
  match s.thread t with
  | .idle => s
  | .loadHead req => s.setThread t (.loadTail req (s.ring.headtail req.side).head (s.headPos req.side))
  | .loadTail req old_head pos =>
    let entries := s.ring.entries old_head req.side
    let n := limited req.behavior req.n entries
    if n = 0 then s.finish t req old_head 0 entries req.obj_table
    else s.setThread t (.exchange req old_head n entries pos)
  | .exchange req old_head n entries pos =>
    if req.single ≠ 0 then
      (s.moveHead req.side (old_head + n) n).setThread t
        (.copy req old_head n entries pos 0 req.obj_table)
    else
      match atomicCompareExchange (s.ring.headtail req.side).head old_head (old_head + n) with
      | (true, head) => (s.moveHead req.side head n).setThread t
          (.copy req old_head n entries pos 0 req.obj_table)
      | (false, _) => s.setThread t (.loadHead req)
  | .copy req old_head n entries pos done obj_table =>
    match (s.ring.copyPtrs old_head n)[done]? with
    | some pair => s.copyOne t req old_head n entries pos done obj_table pair
    | none => s.setThread t (.updateTail req old_head n entries pos obj_table)
  | .updateTail req old_head n entries _ obj_table =>
    { s with ring := s.ring.setHeadtail { s.ring.headtail req.side with
      tail := old_head + n } req.side }.finish
      t req old_head n entries obj_table

def apply : ConcurrentRingEvent α → ConcurrentRing α
  | .call t req => s.setThread t (.loadHead req)
  | .step t => s.advance t

/-- `update_tail` waits until the tail has the old value of the head, unless the side is used by one thread only. -/
def Waits (t : ℕ) : Prop :=
  match s.thread t with
  | .updateTail req old_head _ _ _ _ => req.single = 0 ∧ (s.ring.headtail req.side).tail ≠ old_head
  | _ => False

def Enabled : ConcurrentRingEvent α → Prop
  | .call t _ => s.thread t = .idle
  | .step t => s.thread t ≠ .idle ∧ ¬ s.Waits t

/-- Nobody else is inside a call of the side, or neither call is one for a single thread. -/
def Shares (t : ℕ) (req : RingRequest α) : Prop :=
  ∀ u, u ≠ t → ∀ other, (s.thread u).request = some other → other.side = req.side → req.single = 0 ∧
    other.single = 0

/-- The head has not come all the way round since it was loaded. -/
def Fresh (t : ℕ) : Prop :=
  match s.thread t with
  | .exchange req _ _ _ pos => s.headPos req.side < pos + 2 ^ 32
  | _ => True

instance (t : ℕ) : Decidable (s.Waits t) :=
  match phase : s.thread t with
  | .updateTail req old_head _ _ _ _ =>
    decidable_of_iff (req.single = 0 ∧ (s.ring.headtail req.side).tail ≠ old_head) (by rw [Waits, phase])
  | .idle | .loadHead _ | .loadTail _ _ _ | .exchange _ _ _ _ _ | .copy _ _ _ _ _ _ _ =>
      .isFalse (by rw [Waits, phase]; exact id)

instance (t : ℕ) : Decidable (s.Fresh t) :=
  match phase : s.thread t with
  | .exchange req _ _ _ pos => decidable_of_iff (s.headPos req.side < pos + 2 ^ 32) (by rw [Fresh, phase])
  | .idle | .loadHead _ | .loadTail _ _ _ | .copy _ _ _ _ _ _ _ | .updateTail _ _ _ _ _ _ =>
      .isTrue (by rw [Fresh, phase]; trivial)

/-- The `sp` and `sc` variants are not for several threads, and an exchange cannot tell equal 32-bit heads apart. -/
def Careful : ConcurrentRingEvent α → Prop
  | .call t req => s.Shares t req
  | .step t => s.Fresh t

end Functions

def Step (s : ConcurrentRing α) (event : ConcurrentRingEvent α) (t : ConcurrentRing α) : Prop :=
  s.Enabled event ∧ t = s.apply event

def CarefulStep (s : ConcurrentRing α) (event : ConcurrentRingEvent α) (t : ConcurrentRing α) : Prop :=
  Step s event t ∧ s.Careful event

end ConcurrentRing

end LinuxZero.Ring
