import LinuxZero.Ring.RingCopy
import Mathlib.Data.List.GetD

/-! # The ring as a bounded queue

A run of calls by one thread is a run of a bounded queue: the 32-bit differences of the indices count the
elements, however often the indices wrap. The capacity is `count - 1` whatever the flags are, and a ring of
no elements at all is accepted.
-/

namespace LinuxZero.Ring

/-- Which variant is called: `mp` or `mc`, `sp` or `sc`, or the one that chooses by the flags. -/
inductive CallMode
  | multi
  | single
  | default
deriving DecidableEq, Repr

inductive RingCall (α : Type*)
  | enqueue (mode : CallMode) (behavior : RteRingQueueBehavior) (obj_table : ℕ → α) (n : UInt32)
  | dequeue (mode : CallMode) (behavior : RteRingQueueBehavior) (obj_table : ℕ → α) (n : UInt32)

structure RingEvent (α : Type*) where
  call : RingCall α
  outcome : Outcome α

variable {α : Type*}

def RingCall.run (r : RteRing α) : RingCall α → Option (Outcome α × RteRing α)
  | .enqueue .multi .RTE_RING_QUEUE_FIXED obj_table n => r.rte_ring_mp_enqueue_bulk obj_table n
  | .enqueue .single .RTE_RING_QUEUE_FIXED obj_table n => r.rte_ring_sp_enqueue_bulk obj_table n
  | .enqueue .default .RTE_RING_QUEUE_FIXED obj_table n => r.rte_ring_enqueue_bulk obj_table n
  | .enqueue .multi .RTE_RING_QUEUE_VARIABLE obj_table n => r.rte_ring_mp_enqueue_burst obj_table n
  | .enqueue .single .RTE_RING_QUEUE_VARIABLE obj_table n => r.rte_ring_sp_enqueue_burst obj_table n
  | .enqueue .default .RTE_RING_QUEUE_VARIABLE obj_table n => r.rte_ring_enqueue_burst obj_table n
  | .dequeue .multi .RTE_RING_QUEUE_FIXED obj_table n => r.rte_ring_mc_dequeue_bulk obj_table n
  | .dequeue .single .RTE_RING_QUEUE_FIXED obj_table n => r.rte_ring_sc_dequeue_bulk obj_table n
  | .dequeue .default .RTE_RING_QUEUE_FIXED obj_table n => r.rte_ring_dequeue_bulk obj_table n
  | .dequeue .multi .RTE_RING_QUEUE_VARIABLE obj_table n => r.rte_ring_mc_dequeue_burst obj_table n
  | .dequeue .single .RTE_RING_QUEUE_VARIABLE obj_table n => r.rte_ring_sc_dequeue_burst obj_table n
  | .dequeue .default .RTE_RING_QUEUE_VARIABLE obj_table n => r.rte_ring_dequeue_burst obj_table n

/-- The call returns with this outcome. -/
def RingStep (r : RteRing α) (event : RingEvent α) (r' : RteRing α) : Prop :=
  event.call.run r = some (event.outcome, r')

/-- All elements of a bulk or none; of a burst as many as possible. -/
def granted (behavior : RteRingQueueBehavior) (n entries : ℕ) : ℕ :=
  if n ≤ entries then n
  else
    match behavior with
    | .RTE_RING_QUEUE_FIXED => 0
    | .RTE_RING_QUEUE_VARIABLE => entries

/-- What the same call does to a queue of at most `capacity` elements, and what it reports. -/
def FifoStep (capacity : ℕ) (queued : List α) (event : RingEvent α) (queued' : List α) : Prop :=
  match event.call with
  | .enqueue _ behavior obj_table n =>
    let moved := granted behavior n.toNat (capacity - queued.length)
    queued' = queued ++ (List.range moved).map obj_table ∧ event.outcome.n.toNat = moved ∧
      event.outcome.entries.toNat = capacity - queued'.length ∧ event.outcome.obj_table = obj_table
  | .dequeue _ behavior obj_table n =>
    let moved := granted behavior n.toNat queued.length
    queued' = queued.drop moved ∧ event.outcome.n.toNat = moved ∧
    event.outcome.entries.toNat = queued'.length ∧
      event.outcome.obj_table = fun i => (queued.take moved).getD i (obj_table i)

/-- The usable size of the header's documentation. -/
def usableSize (count flags : UInt32) : ℕ :=
  if flags &&& RING_F_EXACT_SZ ≠ 0 then count.toNat else count.toNat - 1

/-- After every run the queue of the same calls agrees with the reported counts, all calls return, and no slot
without memory has been accessed. -/
def BoundedFifo (capacity slots : ℕ) (r : RteRing α) : Prop :=
  ∀ events r', Run RingStep r events r' →
    (∃ queued, Run (FifoStep capacity) [] events queued ∧ r'.rte_ring_count.toNat = queued.length ∧
      r'.rte_ring_free_count.toNat = capacity - queued.length) ∧
    (∀ event ∈ events, ∀ slot ∈ event.outcome.slots, slot.toNat < slots) ∧
    ∀ call : RingCall α, (call.run r').isSome

theorem limited_toNat (behavior : RteRingQueueBehavior) (n entries : UInt32) :
    (limited behavior n entries).toNat = granted behavior n.toNat entries.toNat := by
  simp only [limited, granted, UInt32.lt_iff_toNat_lt, ← Nat.not_le]
  by_cases fits : n.toNat ≤ entries.toNat
  · rw [if_neg (not_not_intro fits), if_pos fits]
  · rw [if_pos fits, if_neg fits]
    cases behavior <;> rfl

theorem granted_le (behavior : RteRingQueueBehavior) (n entries : ℕ) :
    granted behavior n entries ≤ entries := by
  unfold granted
  split_ifs with fits
  · exact fits
  · cases behavior
    · exact Nat.zero_le _
    · exact le_rfl

/-- The ring holds these elements. -/
structure RteRing.Holds (r : RteRing α) (size : ℕ) (queued : List α) : Prop where
  sized : r.Sized size
  producer : r.prod.tail = r.prod.head
  consumer : r.cons.tail = r.cons.head
  length : (r.prod.head - r.cons.head).toNat = queued.length
  room : queued.length < size
  stored : Stored size r.ring r.cons.head.toNat queued

namespace RteRing.Holds

variable {r : RteRing α} {size : ℕ} {queued : List α}

theorem init (ring : ℕ → α) {count : UInt32} (flags : UInt32) (accepted : rte_ring_get_memsize count ≠ 0)
    (nonzero : count ≠ 0) : (rte_ring_init ring count flags).Holds count.toNat [] where
  sized := sized_init ring flags accepted nonzero
  producer := rfl
  consumer := rfl
  length := (by decide : ((0 : UInt32) - 0).toNat = 0)
  room := toNat_pos nonzero
  stored := stored_nil

theorem free_entries (holds : r.Holds size queued) :
    (r.capacity + r.cons.tail - r.prod.head).toNat = size - 1 - queued.length := by
  have capacity := holds.sized.capacity
  have small := holds.sized.small
  have room := holds.room
  have length := holds.length
  rw [UInt32.toNat_sub] at length
  rw [holds.consumer, UInt32.toNat_sub, UInt32.toNat_add]
  have := r.prod.head.toNat_lt
  have := r.cons.head.toNat_lt
  omega

/-- The slot behind the last element is the producer's. -/
theorem position (holds : r.Holds size queued) :
    r.prod.head.toNat % size = (r.cons.head.toNat + queued.length) % size := by
  have length := holds.length
  rw [UInt32.toNat_sub] at length
  have := r.prod.head.toNat_lt
  have := r.cons.head.toNat_lt
  have wrapped : r.prod.head.toNat = (r.cons.head.toNat + queued.length) % 2 ^ 32 := by omega
  rw [wrapped, Nat.mod_mod_of_dvd _ holds.sized.divides]

theorem rte_ring_count_eq (holds : r.Holds size queued) : r.rte_ring_count.toNat = queued.length := by
  have capacity := holds.sized.capacity
  have room := holds.room
  have masked : ((r.prod.tail - r.cons.tail) &&& r.mask).toNat = queued.length := by
    rw [holds.sized.mask, holds.producer, holds.consumer, holds.length, Nat.mod_eq_of_lt room]
  rw [rte_ring_count, if_neg, masked]
  rw [UInt32.lt_iff_toNat_lt, masked]
  omega

theorem rte_ring_free_count_eq (holds : r.Holds size queued) :
    r.rte_ring_free_count.toNat = size - 1 - queued.length := by
  have capacity := holds.sized.capacity
  have count := holds.rte_ring_count_eq
  have room := holds.room
  rw [rte_ring_free_count, UInt32.toNat_sub_of_le _ _ (UInt32.le_iff_toNat_le.mpr (by omega)),
    capacity, count]

theorem enqueue (holds : r.Holds size queued) (obj_table : ℕ → α) {moved : UInt32}
    (fits : moved.toNat ≤ size - 1 - queued.length) :
    RteRing.Holds
      { r with
        prod := { r.prod with head := r.prod.head + moved, tail := r.prod.head + moved }
        ring := r.ENQUEUE_PTRS r.prod.head obj_table moved }
      size (queued ++ (List.range moved.toNat).map obj_table) where
  sized := ⟨holds.sized.positive, holds.sized.small, holds.sized.divides, holds.sized.slots,
    holds.sized.mask, holds.sized.capacity⟩
  producer := rfl
  consumer := holds.consumer
  length := by
    have length := holds.length
    have small := holds.sized.small
    have room := holds.room
    rw [UInt32.toNat_sub] at length
    rw [List.length_append, List.length_map, List.length_range, UInt32.toNat_sub, UInt32.toNat_add]
    have := r.prod.head.toNat_lt
    have := r.cons.head.toNat_lt
    change (2 ^ 32 - r.cons.head.toNat + (r.prod.head.toNat + moved.toNat) % 2 ^ 32) % 2 ^ 32 = _
    omega
  room := by
    have room := holds.room
    rw [List.length_append, List.length_map, List.length_range]
    omega
  stored := by
    have room := holds.room
    change Stored size (r.ENQUEUE_PTRS r.prod.head obj_table moved) r.cons.head.toNat _
    rw [holds.sized.ENQUEUE_PTRS_eq _ _ (by omega), slotStores_of_mod holds.position]
    exact holds.stored.append (by omega) obj_table

theorem dequeue (holds : r.Holds size queued) {moved : UInt32} (fits : moved.toNat ≤ queued.length) :
    RteRing.Holds { r with
      cons := { r.cons with head := r.cons.head + moved, tail := r.cons.head + moved } }
      size (queued.drop moved.toNat) where
  sized := ⟨holds.sized.positive, holds.sized.small, holds.sized.divides, holds.sized.slots,
    holds.sized.mask, holds.sized.capacity⟩
  producer := holds.producer
  consumer := rfl
  length := by
    have length := holds.length
    rw [UInt32.toNat_sub] at length
    rw [List.length_drop]
    change (r.prod.head - (r.cons.head + moved)).toNat = _
    rw [UInt32.toNat_sub, UInt32.toNat_add]
    have := r.prod.head.toNat_lt
    have := r.cons.head.toNat_lt
    omega
  room := by
    have room := holds.room
    rw [List.length_drop]
    omega
  stored := by
    refine (holds.stored.drop moved.toNat).of_mod ?_
    change _ = (r.cons.head + moved).toNat % size
    rw [UInt32.toNat_add, Nat.mod_mod_of_dvd _ holds.sized.divides]

/-- The copied elements are the first ones of the queue. -/
theorem dequeued (holds : r.Holds size queued) (obj_table : ℕ → α) {moved : UInt32}
    (fits : moved.toNat ≤ queued.length) :
    r.DEQUEUE_PTRS r.cons.head obj_table moved = fun i =>
    (queued.take moved.toNat).getD i (obj_table i) := by
  have room := holds.room
  rw [holds.sized.DEQUEUE_PTRS_eq _ _ (by omega)]
  funext i
  rcases Nat.lt_or_ge i moved.toNat with taken | beyond
  · rw [List.getD_eq_getElem _ _ (by rw [List.length_take]; omega), List.getElem_take,
      ← holds.stored i (by omega)]
    refine assign_of_mem ?_ (List.mem_map.mpr ⟨i, List.mem_range.mpr taken, rfl⟩)
    rw [List.map_map]
    exact List.nodup_range.map_on fun _ _ _ _ same => same
  · rw [List.getD_eq_default _ _ (by rw [List.length_take]; omega)]
    refine assign_of_notMem fun store member same => ?_
    obtain ⟨k, among, rfl⟩ := List.mem_map.mp member
    rw [List.mem_range] at among
    change k = i at same
    omega

end RteRing.Holds

theorem RingCall.run_enqueue (r : RteRing α) (mode : CallMode) (behavior : RteRingQueueBehavior)
    (obj_table : ℕ → α) (n : UInt32) : ∃ is_sp, (RingCall.enqueue mode behavior obj_table n).run r =
      r.rte_ring_do_enqueue obj_table n behavior is_sp := by
  cases mode <;> cases behavior <;> exact ⟨_, rfl⟩

theorem RingCall.run_dequeue (r : RteRing α) (mode : CallMode) (behavior : RteRingQueueBehavior)
    (obj_table : ℕ → α) (n : UInt32) : ∃ is_sc, (RingCall.dequeue mode behavior obj_table n).run r =
      r.rte_ring_do_dequeue obj_table n behavior is_sc := by
  cases mode <;> cases behavior <;> exact ⟨_, rfl⟩

/-- One call: it returns, and does what it does to the queue. -/
theorem RteRing.Holds.call {r : RteRing α} {size : ℕ} {queued : List α}
    (holds : r.Holds size queued) (call : RingCall α) :
    ∃ outcome r' queued', call.run r = some (outcome, r') ∧
    FifoStep (size - 1) queued ⟨call, outcome⟩ queued' ∧
      r'.Holds size queued' ∧ ∀ slot ∈ outcome.slots, slot.toNat < size := by
  have room := holds.room
  cases call with
  | enqueue mode behavior obj_table n =>
    obtain ⟨is_sp, run⟩ := RingCall.run_enqueue r mode behavior obj_table n
    have number := limited_toNat behavior n (r.capacity + r.cons.tail - r.prod.head)
    have free := holds.free_entries
    have fits := granted_le behavior n.toNat (size - 1 - queued.length)
    rw [free] at number
    rw [← number] at fits
    refine ⟨_, _, _, run.trans (do_enqueue_eq holds.sized holds.producer _ _ _ _ rfl rfl),
      ⟨rfl, number, ?_, rfl⟩, ?_, holds.sized.slots_lt _ (by omega)⟩
    · rw [UInt32.toNat_sub_of_le _ _ (UInt32.le_iff_toNat_le.mpr (by omega)), free,
        List.length_append, List.length_map, List.length_range, number, Nat.sub_add_eq]
    · rw [← number]
      exact holds.enqueue obj_table fits
  | dequeue mode behavior obj_table n =>
    obtain ⟨is_sc, run⟩ := RingCall.run_dequeue r mode behavior obj_table n
    have available : (r.prod.tail - r.cons.head).toNat = queued.length := holds.producer ▸ holds.length
    have number := limited_toNat behavior n (r.prod.tail - r.cons.head)
    have fits := granted_le behavior n.toNat queued.length
    rw [available] at number
    rw [← number] at fits
    refine ⟨_, _, _, run.trans (do_dequeue_eq holds.sized holds.consumer _ _ _ _ rfl rfl),
      ⟨rfl, number, ?_, ?_⟩, ?_, holds.sized.slots_lt _ (by omega)⟩
    · rw [UInt32.toNat_sub_of_le _ _ (UInt32.le_iff_toNat_le.mpr (by omega)), available,
        List.length_drop, number]
    · rw [← number]
      exact holds.dequeued obj_table fits
    · rw [← number]
      exact holds.dequeue fits

/-- A ring that holds the queue of the calls so far does so after the next calls. -/
theorem RteRing.Holds.run {r r' : RteRing α} {size : ℕ} {events : List (RingEvent α)}
    (holds : r.Holds size []) (run : Run RingStep r events r') :
    ∃ queued, Run (FifoStep (size - 1)) [] events queued ∧ r'.Holds size queued ∧
      ∀ event ∈ events, ∀ slot ∈ event.outcome.slots, slot.toNat < size := by
  induction run with
  | start => exact ⟨[], .start, holds, fun _ member => absurd member List.not_mem_nil⟩
  | @next events event t u _ last ih =>
    obtain ⟨queued, fifo, holds, slots⟩ := ih
    obtain ⟨outcome, r', queued', returns, step, holds', slots'⟩ := holds.call event.call
    have same : (event.outcome, u) = (outcome, r') := Option.some.inj (last.symm.trans returns)
    obtain ⟨rfl, rfl⟩ := Prod.mk.inj same
    refine ⟨queued', .next fifo step, holds', fun other member => ?_⟩
    rcases List.mem_append.mp member with old | new
    · exact slots other old
    · exact List.mem_singleton.mp new ▸ slots'

theorem boundedFifo_init (ring : ℕ → α) {count : UInt32} (flags : UInt32)
    (accepted : rte_ring_get_memsize count ≠ 0) (nonzero : count ≠ 0) :
    BoundedFifo (count.toNat - 1) (slotsAllocated count) (rte_ring_init ring count flags) := by
  intro events r' run
  obtain ⟨queued, fifo, holds, slots⟩ := (RteRing.Holds.init ring flags accepted nonzero).run run
  refine ⟨⟨queued, fifo, holds.rte_ring_count_eq, holds.rte_ring_free_count_eq⟩,
    fun event member slot accessed => ?_, fun call => ?_⟩
  · exact (slots event member slot accessed).trans_le (slots_allocated accepted nonzero)
  · obtain ⟨outcome, r', queued', returns, -⟩ := holds.call call
    rw [returns]
    rfl

/-- With the flag for the exact size an empty ring reports one free entry too few. -/
theorem exact_size_missed (ring : ℕ → α) {count flags : UInt32}
    (exactSize : flags &&& RING_F_EXACT_SZ ≠ 0) (slots : ℕ) :
    ¬ BoundedFifo (usableSize count flags) slots (rte_ring_init ring count flags) := by
  intro fifo
  obtain ⟨⟨queued, -, used, free⟩, -⟩ := fifo [] _ .start
  have empty : (rte_ring_init ring count flags).rte_ring_count = 0 := by
    have masked : (((0 : UInt32) - 0) &&& (count - 1)) = 0 := UInt32.zero_and
    have same : (rte_ring_init ring count flags).rte_ring_count = if count - 1 < 0
      then count - 1 else 0 :=
      congrArg (fun used => if count - 1 < used then count - 1 else used) masked
    rw [same, if_neg (by simp)]
  rw [empty, UInt32.toNat_zero] at used
  rw [RteRing.rte_ring_free_count, empty, UInt32.sub_zero, usableSize, if_pos exactSize, ← used,
    Nat.sub_zero] at free
  change (count - 1).toNat = count.toNat at free
  have small := count.toNat_lt
  rw [UInt32.toNat_sub, UInt32.toNat_one] at free
  omega

/-- The ring of no elements takes an element, and puts it behind its memory. -/
theorem no_slots_overrun (ring : ℕ → α) (flags : UInt32) (capacity : ℕ) :
    ¬ BoundedFifo capacity (slotsAllocated 0) (rte_ring_init ring 0 flags) := by
  intro fifo
  generalize fresh : rte_ring_init ring 0 flags = r at fifo
  have size : r.size = 0 := fresh ▸ rfl
  have head : r.prod.head = 0 := fresh ▸ rfl
  have free : r.capacity + r.cons.tail - r.prod.head = 0xffffffff := by
    rw [← fresh]
    simp only [rte_ring_init]
    decide
  have copied : r.copyPtrs 0 1 = [(0, 0)] := by
    simp [RteRing.copyPtrs, size, Cursor.upToEnd_eq, Cursor.upTo_eq, Cursor.next]
  have returns := RteRing.do_enqueue_moves r (fresh ▸ rfl) ring 1 isMp .RTE_RING_QUEUE_FIXED free
    (by decide : limited .RTE_RING_QUEUE_FIXED 1 0xffffffff = 1) (by decide)
  rw [head, copied] at returns
  obtain ⟨-, slots, -⟩ :=
    fifo [⟨.enqueue .multi .RTE_RING_QUEUE_FIXED ring 1, _⟩] _ (.next .start returns)
  have less := slots _ (List.mem_singleton.mpr rfl) 0 List.mem_cons_self
  exact absurd less (by decide)

/-- A created ring is the bounded queue of its documentation exactly if it has elements, and was not asked to
have all of them usable. -/
theorem created_boundedFifo_iff {malloc : UInt64 → Option (ℕ → α)} {count flags : UInt32} {r : RteRing α}
    (created : rte_ring_create malloc count flags = some r) :
    BoundedFifo (usableSize count flags) (slotsAllocated count) r ↔ count ≠ 0 ∧
    flags &&& RING_F_EXACT_SZ = 0 := by
  rw [rte_ring_create] at created
  split_ifs at created with refused
  obtain ⟨ring, -, rfl⟩ := Option.map_eq_some_iff.mp created
  constructor
  · intro fifo
    by_contra fails
    rcases not_and_or.mp fails with zero | exactSize
    · obtain rfl := not_not.mp zero
      exact no_slots_overrun ring flags _ fifo
    · exact exact_size_missed ring exactSize _ fifo
  · rintro ⟨nonzero, inexact⟩
    rw [usableSize, if_neg (not_not_intro inexact)]
    exact boundedFifo_init ring flags refused nonzero

theorem created_of_memory (ring : ℕ → α) {count : UInt32} (flags : UInt32)
    (accepted : rte_ring_get_memsize count ≠ 0) :
    rte_ring_create (fun _ => some ring) count flags = some (rte_ring_init ring count flags) :=
  if_neg accepted

theorem fourSlots_boundedFifo :
    BoundedFifo (usableSize 4 RING_F_SP_ENQ) (slotsAllocated 4)
      (rte_ring_init (fun _ => 0 : ℕ → ℕ) 4 RING_F_SP_ENQ) :=
  (created_boundedFifo_iff (created_of_memory (fun _ => 0) RING_F_SP_ENQ (by decide))).mpr
    ⟨by decide, by decide⟩

/-- A ring for exactly four elements, and one for none. -/
theorem exactFour_and_none_fail :
    (∃ r : RteRing ℕ, rte_ring_create (fun _ => some fun _ => 0) 4 RING_F_EXACT_SZ = some r ∧
      ¬ BoundedFifo (usableSize 4 RING_F_EXACT_SZ) (slotsAllocated 4) r) ∧
    ∃ r : RteRing ℕ, rte_ring_create (fun _ => some fun _ => 0) 0 0 = some r ∧
      ¬ BoundedFifo (usableSize 0 0) (slotsAllocated 0) r :=
  ⟨⟨_, created_of_memory _ _ (by decide), exact_size_missed _ (by decide) _⟩,
    ⟨_, created_of_memory _ _ (by decide), no_slots_overrun _ 0 _⟩⟩

end LinuxZero.Ring
