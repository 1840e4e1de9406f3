import LinuxZero.Lib.CircularBuffer
import LinuxZero.Lib.Run

/-! # The reduced `rte_ring`

A ring is a header and the slots behind it. Heads and tails run through all 32-bit values and are masked only
when a slot is accessed, so that differences of them count elements. A call moves the head, copies, and
lets the tail follow.
-/

namespace LinuxZero.Ring

/-- A 64-bit address or size with its low bits cleared, and the same for counters. -/
theorem and_clear {w k x : ℕ} (small : k ≤ w) (bound : x < 2 ^ w) : x &&& (2 ^ w - 2 ^ k) =
    x - x % 2 ^ k := by
  have high : 2 ^ w - 2 ^ k = 2 ^ k * (2 ^ (w - k) - 1) := by
    rw [Nat.mul_sub, Nat.mul_one, ← Nat.pow_add, Nat.add_sub_cancel' small]
  have rounded : x - x % 2 ^ k = 2 ^ k * (x / 2 ^ k) := by
    have := Nat.div_add_mod x (2 ^ k)
    omega
  rw [high, rounded]
  refine Nat.eq_of_testBit_eq fun i => ?_
  rw [Nat.testBit_and, Nat.testBit_two_pow_mul, Nat.testBit_two_pow_mul, Nat.testBit_two_pow_sub_one,
    Nat.testBit_div_two_pow]
  by_cases low : k ≤ i
  · rw [Nat.sub_add_cancel low]
    by_cases within : i < w
    · simp [low, Nat.sub_lt_sub_right low within]
    · have outside : x.testBit i = false :=
        Nat.testBit_lt_two_pow (bound.trans_le (Nat.pow_le_pow_right (by omega) (by omega)))
      simp [outside]
  · simp [low]

inductive RteRingQueueBehavior
  | RTE_RING_QUEUE_FIXED
  | RTE_RING_QUEUE_VARIABLE
deriving DecidableEq, Repr

def RING_F_SP_ENQ : UInt32 := 0x0001
def RING_F_SC_DEQ : UInt32 := 0x0002
def RING_F_EXACT_SZ : UInt32 := 0x0004
def RTE_RING_SZ_MASK : UInt32 := 0x7fffffff
def RTE_CACHE_LINE_SIZE : UInt64 := 64

def isSp : UInt32 := 1
def isMp : UInt32 := 0
def isSc : UInt32 := 1
def isMc : UInt32 := 0

structure RteRingHeadtail where
  head : UInt32
  tail : UInt32
  single : UInt32
deriving DecidableEq, Repr

/-- The header, and in `ring` what the slots hold. -/
structure RteRing (α : Type*) where
  flags : UInt32
  size : UInt32
  mask : UInt32
  capacity : UInt32
  prod : RteRingHeadtail
  cons : RteRingHeadtail
  ring : ℕ → α

/-- `sizeof(struct rte_ring)`: six parts, each on a cache line of its own. -/
def sizeofRteRing : UInt64 := 6 * RTE_CACHE_LINE_SIZE

def sizeofPointer : UInt64 := 8

def POWEROF2 (x : UInt32) : Bool := (x - 1) &&& x == 0

def RTE_ALIGN (val align : UInt64) : UInt64 := (val + (align - 1)) &&& ~~~(align - 1)

def rte_ring_get_memsize (count : UInt32) : UInt64 :=
  if !POWEROF2 count || RTE_RING_SZ_MASK < count then 0
  else RTE_ALIGN (sizeofRteRing + count.toUInt64 * sizeofPointer) RTE_CACHE_LINE_SIZE

/-- The slots that there is memory for. -/
def slotsAllocated (count : UInt32) : ℕ :=
  (rte_ring_get_memsize count - sizeofRteRing).toNat / sizeofPointer.toNat

variable {α : Type*}

def rte_ring_init (ring : ℕ → α) (count flags : UInt32) : RteRing α where
  flags := flags
  size := count
  mask := count - 1
  capacity := count - 1
  prod := { head := 0, tail := 0, single := if flags &&& RING_F_SP_ENQ ≠ 0 then isSp else isMp }
  cons := { head := 0, tail := 0, single := if flags &&& RING_F_SC_DEQ ≠ 0 then isSc else isMc }
  ring := ring

/-- `malloc` returns null or memory with any content. -/
def rte_ring_create (malloc : UInt64 → Option (ℕ → α)) (count flags : UInt32) : Option (RteRing α) :=
  if rte_ring_get_memsize count = 0 then none
  else (malloc (rte_ring_get_memsize count)).map fun ring => rte_ring_init ring count flags

/-- The two indices of a copy, and the pairs that it has gone through. -/
structure Cursor where
  i : UInt32
  idx : UInt32
  copied : List (UInt32 × UInt32) := []

namespace Cursor

def next (c : Cursor) : Cursor where
  i := c.i + 1
  idx := c.idx + 1
  copied := c.copied ++ [(c.i, c.idx)]

theorem fours (n : UInt32) : (n &&& ~~~3).toNat = n.toNat - n.toNat % 4 := by
  rw [UInt32.toNat_and]
  exact and_clear (w := 32) (k := 2) (by omega) n.toNat_lt

/-- Four elements in each round. -/
def unrolled (n : UInt32) (c : Cursor) : Cursor :=
  if c.i < n &&& ~~~3 then unrolled n c.next.next.next.next else c
termination_by n.toNat - c.i.toNat
decreasing_by
  rename_i more
  rw [UInt32.lt_iff_toNat_lt, fours] at more
  have := n.toNat_lt
  simp only [next, UInt32.toNat_add, UInt32.toNat_one]
  omega

/-- The cases of the `switch` fall through. -/
def leftover (n : UInt32) (c : Cursor) : Cursor :=
  if n &&& 3 = 3 then c.next.next.next
  else if n &&& 3 = 2 then c.next.next
  else if n &&& 3 = 1 then c.next
  else c

def upToEnd (size : UInt32) (c : Cursor) : Cursor :=
  if c.idx < size then upToEnd size c.next else c
termination_by size.toNat - c.idx.toNat
decreasing_by
  rename_i more
  rw [UInt32.lt_iff_toNat_lt] at more
  have := size.toNat_lt
  simp only [next, UInt32.toNat_add, UInt32.toNat_one]
  omega

def upTo (n : UInt32) (c : Cursor) : Cursor :=
  if c.i < n then upTo n c.next else c
termination_by n.toNat - c.i.toNat
decreasing_by
  rename_i more
  rw [UInt32.lt_iff_toNat_lt] at more
  have := n.toNat_lt
  simp only [next, UInt32.toNat_add, UInt32.toNat_one]
  omega

end Cursor

namespace RteRing

variable (r : RteRing α)

/-- The loops that `ENQUEUE_PTRS` and `DEQUEUE_PTRS` have in common: table index and slot of each element. -/
def copyPtrs (head n : UInt32) : List (UInt32 × UInt32) :=
  let start : Cursor := { i := 0, idx := head &&& r.mask }
  if start.idx + n < r.size then ((start.unrolled n).leftover n).copied
  else (Cursor.upTo n { start.upToEnd r.size with idx := 0 }).copied

def ENQUEUE_PTRS (prod_head : UInt32) (obj_table : ℕ → α) (n : UInt32) : ℕ → α :=
  assign ((r.copyPtrs prod_head n).map fun pair => (pair.2.toNat, obj_table pair.1.toNat)) r.ring

def DEQUEUE_PTRS (cons_head : UInt32) (obj_table : ℕ → α) (n : UInt32) : ℕ → α :=
  assign ((r.copyPtrs cons_head n).map fun pair => (pair.1.toNat, r.ring pair.2.toNat)) obj_table

end RteRing

/-- `__atomic_compare_exchange_n`: success, and the value of the cell. -/
def atomicCompareExchange (cell expected desired : UInt32) : Bool × UInt32 :=
  if cell = expected then (true, desired) else (false, cell)

/-- How many elements a call moves when there is room for, or a supply of, `entries`. -/
def limited (behavior : RteRingQueueBehavior) (n entries : UInt32) : UInt32 :=
  if entries < n then
    match behavior with
    | .RTE_RING_QUEUE_FIXED => 0
    | .RTE_RING_QUEUE_VARIABLE => entries
  else n

/-- A head is moved on, by a store or by an exchange. An exchange that fails is tried again in the same state;
then there is no result. -/
def moveHead (ht : RteRingHeadtail) (single n : UInt32) : Option RteRingHeadtail :=
  if single ≠ 0 then some { ht with head := ht.head + n }
  else
    match atomicCompareExchange ht.head ht.head (ht.head + n) with
    | (true, head) => some { ht with head := head }
    | (false, _) => none

/-- The tail follows the head. While it is not at the old value a call with other producers or consumers waits;
a single thread waits for ever then. -/
def update_tail (ht : RteRingHeadtail) (old_val new_val single : UInt32) : Option RteRingHeadtail :=
  if single = 0 ∧ ht.tail ≠ old_val then none else some { ht with tail := new_val }

/-- The returned number, what is stored at `free_space` or `available`, the table after the call, and the slots
that were accessed. -/
structure Outcome (α : Type*) where
  n : UInt32
  entries : UInt32
  obj_table : ℕ → α
  slots : List UInt32

/-- What `move_prod_head` and `move_cons_head` pass back. -/
structure HeadMove where
  n : UInt32
  old_head : UInt32
  new_head : UInt32
  entries : UInt32
  headtail : RteRingHeadtail

namespace RteRing

variable (r : RteRing α)

def rte_ring_move_prod_head (is_sp n : UInt32) (behavior : RteRingQueueBehavior) : Option HeadMove :=
  let old_head := r.prod.head
  let free_entries := r.capacity + r.cons.tail - old_head
  let n := limited behavior n free_entries
  if n = 0 then some { n := 0, old_head, new_head := old_head, entries := free_entries, headtail := r.prod }
  else
    (moveHead r.prod is_sp n).map fun prod =>
      { n, old_head, new_head := old_head + n, entries := free_entries, headtail := prod }

def rte_ring_move_cons_head (is_sc n : UInt32) (behavior : RteRingQueueBehavior) : Option HeadMove :=
  let old_head := r.cons.head
  let entries := r.prod.tail - old_head
  let n := limited behavior n entries
  if n = 0 then some { n := 0, old_head, new_head := old_head, entries, headtail := r.cons }
  else
    (moveHead r.cons is_sc n).map fun cons =>
      { n, old_head, new_head := old_head + n, entries, headtail := cons }

def rte_ring_do_enqueue (obj_table : ℕ → α) (n : UInt32) (behavior : RteRingQueueBehavior)
    (is_sp : UInt32) :
    Option (Outcome α × RteRing α) :=
  (r.rte_ring_move_prod_head is_sp n behavior).bind fun move =>
    if move.n = 0 then some ({ n := 0, entries := move.entries, obj_table, slots := [] }, r)
    else
      (update_tail move.headtail move.old_head move.new_head is_sp).map fun prod =>
        ({ n := move.n, entries := move.entries - move.n, obj_table,
           slots := (r.copyPtrs move.old_head move.n).map Prod.snd },
         { r with prod := prod, ring := r.ENQUEUE_PTRS move.old_head obj_table move.n })

def rte_ring_do_dequeue (obj_table : ℕ → α) (n : UInt32) (behavior : RteRingQueueBehavior)
    (is_sc : UInt32) :
    Option (Outcome α × RteRing α) :=
  (r.rte_ring_move_cons_head is_sc n behavior).bind fun move =>
    if move.n = 0 then some ({ n := 0, entries := move.entries, obj_table, slots := [] }, r)
    else
      (update_tail move.headtail move.old_head move.new_head is_sc).map fun cons =>
        ({ n := move.n, entries := move.entries - move.n,
           obj_table := r.DEQUEUE_PTRS move.old_head obj_table move.n,
           slots := (r.copyPtrs move.old_head move.n).map Prod.snd },
         { r with cons := cons })

def rte_ring_mp_enqueue_bulk (obj_table : ℕ → α) (n : UInt32) : Option (Outcome α × RteRing α) :=
  r.rte_ring_do_enqueue obj_table n .RTE_RING_QUEUE_FIXED isMp

def rte_ring_sp_enqueue_bulk (obj_table : ℕ → α) (n : UInt32) : Option (Outcome α × RteRing α) :=
  r.rte_ring_do_enqueue obj_table n .RTE_RING_QUEUE_FIXED isSp

def rte_ring_enqueue_bulk (obj_table : ℕ → α) (n : UInt32) : Option (Outcome α × RteRing α) :=
  r.rte_ring_do_enqueue obj_table n .RTE_RING_QUEUE_FIXED r.prod.single

def rte_ring_mc_dequeue_bulk (obj_table : ℕ → α) (n : UInt32) : Option (Outcome α × RteRing α) :=
  r.rte_ring_do_dequeue obj_table n .RTE_RING_QUEUE_FIXED isMc

def rte_ring_sc_dequeue_bulk (obj_table : ℕ → α) (n : UInt32) : Option (Outcome α × RteRing α) :=
  r.rte_ring_do_dequeue obj_table n .RTE_RING_QUEUE_FIXED isSc

def rte_ring_dequeue_bulk (obj_table : ℕ → α) (n : UInt32) : Option (Outcome α × RteRing α) :=
  r.rte_ring_do_dequeue obj_table n .RTE_RING_QUEUE_FIXED r.cons.single

def rte_ring_mp_enqueue_burst (obj_table : ℕ → α) (n : UInt32) : Option (Outcome α × RteRing α) :=
  r.rte_ring_do_enqueue obj_table n .RTE_RING_QUEUE_VARIABLE isMp

def rte_ring_sp_enqueue_burst (obj_table : ℕ → α) (n : UInt32) : Option (Outcome α × RteRing α) :=
  r.rte_ring_do_enqueue obj_table n .RTE_RING_QUEUE_VARIABLE isSp

def rte_ring_enqueue_burst (obj_table : ℕ → α) (n : UInt32) : Option (Outcome α × RteRing α) :=
  r.rte_ring_do_enqueue obj_table n .RTE_RING_QUEUE_VARIABLE r.prod.single

def rte_ring_mc_dequeue_burst (obj_table : ℕ → α) (n : UInt32) : Option (Outcome α × RteRing α) :=
  r.rte_ring_do_dequeue obj_table n .RTE_RING_QUEUE_VARIABLE isMc

def rte_ring_sc_dequeue_burst (obj_table : ℕ → α) (n : UInt32) : Option (Outcome α × RteRing α) :=
  r.rte_ring_do_dequeue obj_table n .RTE_RING_QUEUE_VARIABLE isSc

def rte_ring_dequeue_burst (obj_table : ℕ → α) (n : UInt32) : Option (Outcome α × RteRing α) :=
  r.rte_ring_do_dequeue obj_table n .RTE_RING_QUEUE_VARIABLE r.cons.single

def rte_ring_count : UInt32 :=
  let count := (r.prod.tail - r.cons.tail) &&& r.mask
  if r.capacity < count then r.capacity else count

def rte_ring_free_count : UInt32 := r.capacity - r.rte_ring_count

end RteRing

end LinuxZero.Ring
