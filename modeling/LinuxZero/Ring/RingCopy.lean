import LinuxZero.Ring.RteRing

/-! # What one call copies, and how it moves the indices

The unrolled loop with its leftover, and the loop that is split at the end of the ring, go through the same
pairs: the k-th element of the table and the slot of the k-th position behind the head.
-/

namespace LinuxZero.Ring

namespace Cursor

theorem next_iterate (k : ℕ) (c : Cursor) :
    next^[k] c =
      { i := c.i + UInt32.ofNat k, idx := c.idx + UInt32.ofNat k,
        copied := c.copied ++ (List.range k).map fun j =>
          (c.i + UInt32.ofNat j, c.idx + UInt32.ofNat j) } := by
  induction k with
  | zero => simp
  | succ k ih =>
    rw [Function.iterate_succ_apply', ih, next, List.range_succ, List.map_append, UInt32.ofNat_add,
      ← UInt32.add_assoc, ← UInt32.add_assoc, List.append_assoc]
    rfl

theorem unrolled_eq {n : UInt32} {c : Cursor} (within : c.i.toNat ≤ n.toNat - n.toNat % 4)
    (whole : c.i.toNat % 4 = 0) :
    c.unrolled n = next^[n.toNat - n.toNat % 4 - c.i.toNat] c := by
  induction c using unrolled.induct n with
  | case1 c more ih =>
    rw [unrolled, if_pos more]
    rw [UInt32.lt_iff_toNat_lt, fours] at more
    have small := n.toNat_lt
    have index : c.next.next.next.next.i.toNat = c.i.toNat + 4 := by
      simp only [next, UInt32.toNat_add, UInt32.toNat_one]
      omega
    have rounds : n.toNat - n.toNat % 4 - c.i.toNat = n.toNat - n.toNat % 4 - (c.i.toNat + 4) +
      4 := by omega
    rw [ih (by omega) (by omega), index, rounds]
    rfl
  | case2 c done =>
    rw [unrolled, if_neg done]
    rw [UInt32.lt_iff_toNat_lt, fours] at done
    rw [show n.toNat - n.toNat % 4 - c.i.toNat = 0 by omega]
    rfl

theorem leftover_eq (n : UInt32) (c : Cursor) : c.leftover n = next^[n.toNat % 4] c := by
  have low : (n &&& 3).toNat = n.toNat % 4 := by
    rw [UInt32.toNat_and]
    exact Nat.and_two_pow_sub_one_eq_mod n.toNat 2
  have value : ∀ v : UInt32, n &&& 3 = v ↔ n.toNat % 4 = v.toNat := fun v => by
    rw [← UInt32.toNat_inj, low]
  simp only [leftover, value, UInt32.reduceToNat]
  have cases : n.toNat % 4 = 0 ∨ n.toNat % 4 = 1 ∨ n.toNat % 4 = 2 ∨ n.toNat % 4 = 3 := by omega
  rcases cases with rest | rest | rest | rest <;> rw [rest] <;> rfl

/-- A loop that goes on while an index is below a bound. -/
theorem counted_eq {index : Cursor → UInt32} {loop : Cursor → Cursor} {bound : UInt32}
    (moves : ∀ c, index c.next = index c + 1)
    (rounds : ∀ c, loop c = if index c < bound then loop c.next else c) (c : Cursor) :
    loop c = next^[bound.toNat - (index c).toNat] c := by
  induction left : bound.toNat - (index c).toNat generalizing c with
  | zero =>
    have done : ¬ index c < bound := by
      rw [UInt32.lt_iff_toNat_lt]
      omega
    rw [rounds, if_neg done]
    rfl
  | succ left ih =>
    have more : index c < bound := UInt32.lt_iff_toNat_lt.mpr (by omega)
    have small := bound.toNat_lt
    have moved : (index c.next).toNat = (index c).toNat + 1 := by
      rw [moves, UInt32.toNat_add, UInt32.toNat_one]
      omega
    rw [rounds, if_pos more, ih c.next (by omega)]
    rfl

theorem upToEnd_eq (size : UInt32) (c : Cursor) : c.upToEnd size = next^[size.toNat - c.idx.toNat] c :=
  counted_eq (fun _ => rfl) (fun c => by rw [upToEnd]) c

theorem upTo_eq (n : UInt32) (c : Cursor) : c.upTo n = next^[n.toNat - c.i.toNat] c :=
  counted_eq (fun _ => rfl) (fun c => by rw [upTo]) c

end Cursor

/-- The size of the ring is a power of two and the mask belongs to it. -/
structure RteRing.Sized {α : Type*} (r : RteRing α) (size : ℕ) : Prop where
  positive : 0 < size
  small : size < 2 ^ 31
  divides : size ∣ 2 ^ 32
  slots : r.size.toNat = size
  mask : ∀ position : UInt32, (position &&& r.mask).toNat = position.toNat % size
  capacity : r.capacity.toNat = size - 1

namespace RteRing.Sized

variable {α : Type*} {r : RteRing α} {size : ℕ}

/-- The pairs of a copy of at most `size` elements. -/
theorem copyPtrs_eq (sized : r.Sized size) (head : UInt32) {n : UInt32} (room : n.toNat ≤ size) :
    (r.copyPtrs head n).map (fun pair => (pair.1.toNat, pair.2.toNat)) =
      (List.range n.toNat).map fun k => (k, (head.toNat + k) % size) := by
  have small := sized.small
  have start := sized.mask head
  have inside := Nat.mod_lt head.toNat sized.positive
  have slot (k : ℕ) : (head.toNat + k) % size = (head.toNat % size + k) % size :=
    (Nat.mod_add_mod ..).symm
  simp only [copyPtrs, UInt32.lt_iff_toNat_lt, UInt32.toNat_add, sized.slots, start]
  rw [Nat.mod_eq_of_lt (show head.toNat % size + n.toNat < 2 ^ 32 by omega)]
  split_ifs with fits
  · -- the elements end before the last slot
    rw [Cursor.unrolled_eq (by simp) (by simp), Cursor.leftover_eq, ← Function.iterate_add_apply,
      Cursor.next_iterate]
    have total : n.toNat % 4 + (n.toNat - n.toNat % 4 - (0 : UInt32).toNat) = n.toNat := by
      rw [UInt32.toNat_zero]
      omega
    simp only [total, List.nil_append, List.map_map]
    refine List.map_congr_left fun k among => ?_
    rw [List.mem_range] at among
    simp only [Function.comp, UInt32.toNat_add, start, UInt32.toNat_zero, UInt32.toNat_ofNat']
    rw [slot, Nat.mod_eq_of_lt (show head.toNat % size + k < size by omega)]
    congr 1 <;> omega
  · rw [Cursor.upToEnd_eq, Cursor.upTo_eq, Cursor.next_iterate, Cursor.next_iterate]
    simp only [start, sized.slots, UInt32.toNat_add, UInt32.toNat_zero, UInt32.toNat_ofNat',
      List.nil_append]
    obtain ⟨rest, total⟩ := Nat.exists_eq_add_of_le (show size - head.toNat % size ≤ n.toNat by omega)
    have later : n.toNat - (0 + (size - head.toNat % size) % 2 ^ 32) % 2 ^ 32 = rest := by omega
    rw [later, total, List.range_add, List.map_append, List.map_append, List.map_map, List.map_map,
      List.map_map]
    congr 1
    · refine List.map_congr_left fun k among => ?_
      rw [List.mem_range] at among
      simp only [Function.comp, UInt32.toNat_add, start, UInt32.toNat_zero, UInt32.toNat_ofNat']
      rw [slot, Nat.mod_eq_of_lt (show head.toNat % size + k < size by omega)]
      congr 1 <;> omega
    · refine List.map_congr_left fun k among => ?_
      rw [List.mem_range] at among
      have round : head.toNat % size + (size - head.toNat % size + k) = k + size := by omega
      simp only [Function.comp, UInt32.toNat_add, UInt32.toNat_zero, UInt32.toNat_ofNat']
      rw [slot, round, Nat.add_mod_right, Nat.mod_eq_of_lt (show k < size by omega)]
      congr 1 <;> omega

theorem slots_lt (sized : r.Sized size) (head : UInt32) {n : UInt32} (room : n.toNat ≤ size) :
    ∀ slot ∈ (r.copyPtrs head n).map Prod.snd, slot.toNat < size := by
  intro slot member
  obtain ⟨pair, copied, rfl⟩ := List.mem_map.mp member
  have image := List.mem_map_of_mem (f := fun pair => (pair.1.toNat, pair.2.toNat)) copied
  rw [sized.copyPtrs_eq head room] at image
  obtain ⟨k, -, same⟩ := List.mem_map.mp image
  have value : (head.toNat + k) % size = pair.2.toNat := congrArg Prod.snd same
  rw [← value]
  exact Nat.mod_lt _ sized.positive

theorem ENQUEUE_PTRS_eq (sized : r.Sized size) (prod_head : UInt32) (obj_table : ℕ → α) {n : UInt32}
    (room : n.toNat ≤ size) :
    r.ENQUEUE_PTRS prod_head obj_table n =
    assign (slotStores size prod_head.toNat n.toNat obj_table) r.ring := by
  have pairs := congrArg (List.map fun pair => (pair.2, obj_table pair.1))
    (sized.copyPtrs_eq prod_head room)
  rw [List.map_map, List.map_map] at pairs
  exact congrArg (assign · r.ring) pairs

theorem DEQUEUE_PTRS_eq (sized : r.Sized size) (cons_head : UInt32) (obj_table : ℕ → α) {n : UInt32}
    (room : n.toNat ≤ size) :
    r.DEQUEUE_PTRS cons_head obj_table n =
      assign ((List.range n.toNat).map fun k => (k, r.ring ((cons_head.toNat + k) % size)))
    obj_table := by
  have pairs := congrArg (List.map fun pair => (pair.1, r.ring pair.2)) (sized.copyPtrs_eq cons_head room)
  rw [List.map_map, List.map_map] at pairs
  exact congrArg (assign · obj_table) pairs

end RteRing.Sized

/-- Alone, the exchange succeeds. -/
theorem moveHead_eq (ht : RteRingHeadtail) (single n : UInt32) :
    moveHead ht single n = some { ht with head := ht.head + n } := by
  unfold moveHead atomicCompareExchange
  split <;> simp

theorem update_tail_eq {ht : RteRingHeadtail} {old_val : UInt32} (settled : ht.tail = old_val)
    (new_val single : UInt32) :
    update_tail ht old_val new_val single = some { ht with tail := new_val } :=
  if_neg fun waits => waits.2 settled

theorem RteRingHeadtail.eq_of_settled {ht : RteRingHeadtail} (settled : ht.tail = ht.head) :
    { ht with tail := ht.head } = ht := by
  cases ht
  cases settled
  rfl

namespace RteRing

variable {α : Type*} {r : RteRing α} {size : ℕ}

theorem Sized.copyPtrs_zero (sized : r.Sized size) (head : UInt32) : r.copyPtrs head 0 = [] :=
  List.map_eq_nil_iff.mp (sized.copyPtrs_eq head (Nat.zero_le _))

theorem do_enqueue_moves (r : RteRing α) (settled : r.prod.tail = r.prod.head) (obj_table : ℕ → α)
    (n is_sp : UInt32) (behavior : RteRingQueueBehavior) {free moved : UInt32}
    (entries : r.capacity + r.cons.tail - r.prod.head = free)
    (number : limited behavior n free = moved) (some_moved : moved ≠ 0) :
    r.rte_ring_do_enqueue obj_table n behavior is_sp =
      some ({ n := moved, entries := free - moved, obj_table,
              slots := (r.copyPtrs r.prod.head moved).map Prod.snd },
        { r with
          prod := { r.prod with head := r.prod.head + moved, tail := r.prod.head + moved }
          ring := r.ENQUEUE_PTRS r.prod.head obj_table moved }) := by
  simp only [rte_ring_do_enqueue, rte_ring_move_prod_head, entries, number]
  rw [if_neg some_moved, moveHead_eq, Option.map_some, Option.bind_some, if_neg some_moved,
    update_tail_eq (show ({ r.prod with head := r.prod.head + moved } : RteRingHeadtail).tail =
    r.prod.head from settled)]
  rfl

/-- An enqueue returns, and both indices of the producer have moved by the number of elements. -/
theorem do_enqueue_eq (sized : r.Sized size) (settled : r.prod.tail = r.prod.head)
    (obj_table : ℕ → α) (n is_sp : UInt32) (behavior : RteRingQueueBehavior) {free moved : UInt32}
    (entries : r.capacity + r.cons.tail - r.prod.head = free)
    (number : limited behavior n free = moved) :
    r.rte_ring_do_enqueue obj_table n behavior is_sp =
      some ({ n := moved, entries := free - moved, obj_table,
              slots := (r.copyPtrs r.prod.head moved).map Prod.snd },
        { r with
          prod := { r.prod with head := r.prod.head + moved, tail := r.prod.head + moved }
          ring := r.ENQUEUE_PTRS r.prod.head obj_table moved }) := by
  by_cases none_moved : moved = 0
  · simp only [rte_ring_do_enqueue, rte_ring_move_prod_head, entries, number]
    rw [if_pos none_moved, Option.bind_some, if_pos rfl, none_moved]
    simp only [ENQUEUE_PTRS, sized.copyPtrs_zero, assign, List.map_nil, List.foldl_nil,
      UInt32.sub_zero, UInt32.add_zero, RteRingHeadtail.eq_of_settled settled]
  · exact do_enqueue_moves r settled obj_table n is_sp behavior entries number none_moved

theorem do_dequeue_eq (sized : r.Sized size) (settled : r.cons.tail = r.cons.head)
    (obj_table : ℕ → α) (n is_sc : UInt32) (behavior : RteRingQueueBehavior)
    {available moved : UInt32} (entries : r.prod.tail - r.cons.head = available)
    (number : limited behavior n available = moved) :
    r.rte_ring_do_dequeue obj_table n behavior is_sc =
      some ({ n := moved, entries := available - moved,
              obj_table := r.DEQUEUE_PTRS r.cons.head obj_table moved,
              slots := (r.copyPtrs r.cons.head moved).map Prod.snd },
        { r with cons := { r.cons with head := r.cons.head + moved, tail := r.cons.head + moved } }) := by
  simp only [rte_ring_do_dequeue, rte_ring_move_cons_head, entries, number]
  by_cases none_moved : moved = 0
  · rw [if_pos none_moved, Option.bind_some, if_pos rfl, none_moved]
    simp only [DEQUEUE_PTRS, sized.copyPtrs_zero, assign, List.map_nil, List.foldl_nil,
      UInt32.sub_zero, UInt32.add_zero, RteRingHeadtail.eq_of_settled settled]
  · rw [if_neg none_moved, moveHead_eq, Option.map_some, Option.bind_some, if_neg none_moved,
      update_tail_eq (show ({ r.cons with head := r.cons.head + moved } : RteRingHeadtail).tail =
      r.cons.head from settled)]
    rfl

end RteRing

theorem toNat_pos {count : UInt32} (nonzero : count ≠ 0) : 0 < count.toNat :=
  Nat.pos_of_ne_zero fun zero => nonzero (UInt32.toNat_inj.mp zero)

theorem toNat_pred {count : UInt32} (nonzero : count ≠ 0) : (count - 1).toNat = count.toNat - 1 := by
  have positive := toNat_pos nonzero
  have small := count.toNat_lt
  rw [UInt32.toNat_sub, UInt32.toNat_one]
  omega

/-- The counts that `rte_ring_get_memsize` accepts are zero and the powers of two up to `2^30`. -/
theorem memsize_ne_zero {count : UInt32} (accepted : rte_ring_get_memsize count ≠ 0)
    (nonzero : count ≠ 0) :
    ∃ k < 31, count.toNat = 2 ^ k := by
  rw [rte_ring_get_memsize] at accepted
  split_ifs at accepted with refused
  · exact absurd rfl accepted
  · rw [Bool.or_eq_true, not_or, Bool.not_eq_true', Bool.not_eq_false, decide_eq_true_eq,
      UInt32.lt_iff_toNat_lt] at refused
    obtain ⟨power, bound⟩ := refused
    have positive := toNat_pos nonzero
    have bits := congrArg UInt32.toNat (eq_of_beq power)
    rw [UInt32.toNat_and, toNat_pred nonzero, UInt32.toNat_zero, Nat.and_comm,
      Nat.and_sub_one_eq_zero_iff_isPowerOfTwo positive.ne'] at bits
    obtain ⟨k, value⟩ := bits
    refine ⟨k, ?_, value⟩
    rw [value] at bound
    exact (Nat.pow_lt_pow_iff_right (by decide)).mp
      (lt_of_not_ge fun large => bound (Nat.lt_of_lt_of_le (by decide) large))

theorem sized_init {α : Type*} (ring : ℕ → α) {count : UInt32} (flags : UInt32)
    (accepted : rte_ring_get_memsize count ≠ 0) (nonzero : count ≠ 0) :
    (rte_ring_init ring count flags).Sized count.toNat := by
  obtain ⟨k, less, value⟩ := memsize_ne_zero accepted nonzero
  refine ⟨toNat_pos nonzero, ?_, ?_, rfl, fun position => ?_, toNat_pred nonzero⟩
  · exact value ▸ Nat.pow_lt_pow_right (by decide) less
  · exact value ▸ Nat.pow_dvd_pow 2 (by omega)
  · change (position &&& (count - 1)).toNat = _
    rw [UInt32.toNat_and, toNat_pred nonzero, value, Nat.and_two_pow_sub_one_eq_mod]

/-- Each slot of the ring has memory. -/
theorem slots_allocated {count : UInt32} (accepted : rte_ring_get_memsize count ≠ 0)
    (nonzero : count ≠ 0) :
    count.toNat ≤ slotsAllocated count := by
  obtain ⟨k, less, value⟩ := memsize_ne_zero accepted nonzero
  have small : count.toNat < 2 ^ 31 := value ▸ Nat.pow_lt_pow_right (by decide) less
  rw [slotsAllocated]
  rw [rte_ring_get_memsize] at accepted ⊢
  split_ifs at accepted ⊢ with refused
  · exact absurd rfl accepted
  · have bytes : (sizeofRteRing + count.toUInt64 * sizeofPointer +
      (RTE_CACHE_LINE_SIZE - 1)).toNat = 447 + 8 * count.toNat := by
      simp only [sizeofRteRing, sizeofPointer, RTE_CACHE_LINE_SIZE, UInt64.toNat_add,
        UInt64.toNat_mul, UInt32.toNat_toUInt64, UInt64.reduceSub, UInt64.reduceMul,
        UInt64.reduceToNat]
      omega
    have aligned : (RTE_ALIGN (sizeofRteRing + count.toUInt64 * sizeofPointer)
      RTE_CACHE_LINE_SIZE).toNat =
        447 + 8 * count.toNat - (447 + 8 * count.toNat) % 64 := by
      rw [RTE_ALIGN, UInt64.toNat_and, bytes]
      exact and_clear (w := 64) (k := 6) (by decide) (by omega)
    have header : sizeofRteRing.toNat = 384 := rfl
    rw [UInt64.toNat_sub_of_le _ _ (UInt64.le_iff_toNat_le.mpr (by omega)), aligned, header]
    change _ ≤ _ / 8
    omega

end LinuxZero.Ring
