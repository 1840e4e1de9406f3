import LinuxZero.Fbarray.ConsecutiveSearch

/-! # An array as a set of used elements

What the array is for: elements are marked as used and as free again, and the queries tell where the used and the free
ones are. After every run of requests the mask is the set that the requests have left, and the count is its size.
-/

namespace LinuxZero.Fbarray

inductive FbarrayRequest
  | set_used (idx : ℕ)
  | set_free (idx : ℕ)
  | is_used (idx : ℕ)
  | find_next_free (start : ℕ)
  | find_next_used (start : ℕ)
  | find_next_n_free (start n : ℕ)
  | find_next_n_used (start n : ℕ)
  | find_contig_free (start : ℕ)
  | find_contig_used (start : ℕ)
deriving DecidableEq, Repr

/-- A request and its answer; `wraps` says what a shift by 64 yields. -/
def RteFbarray.call (wraps : Bool) (arr : RteFbarray) : FbarrayRequest → RteFbarray × Except ℤ ℕ
  | .set_used idx => arr.rte_fbarray_set_used idx
  | .set_free idx => arr.rte_fbarray_set_free idx
  | .is_used idx => (arr, arr.rte_fbarray_is_used idx)
  | .find_next_free start => (arr, arr.rte_fbarray_find_next_free start)
  | .find_next_used start => (arr, arr.rte_fbarray_find_next_used start)
  | .find_next_n_free start n => (arr, arr.rte_fbarray_find_next_n_free wraps start n)
  | .find_next_n_used start n => (arr, arr.rte_fbarray_find_next_n_used wraps start n)
  | .find_contig_free start => (arr, arr.rte_fbarray_find_contig_free start)
  | .find_contig_used start => (arr, arr.rte_fbarray_find_contig_used start)

def RteFbarray.Step (wraps : Bool) (arr : RteFbarray) (event : FbarrayRequest × Except ℤ ℕ)
    (arr' : RteFbarray) : Prop :=
  arr.call wraps event.1 = (arr', event.2)

section Spec

variable (len : ℕ) (used : Finset ℕ)

/-- What a request does to the used elements. -/
def nextUsed : FbarrayRequest → Finset ℕ
  | .set_used idx => if idx < len then insert idx used else used
  | .set_free idx => used.erase idx
  | _ => used

def usedAfter (requests : List FbarrayRequest) : Finset ℕ := requests.foldl (nextUsed len) ∅

/-- How a request has to be answered. -/
def Answers (answer : Except ℤ ℕ) : FbarrayRequest → Prop
  | .set_used idx | .set_free idx => answer = if idx < len then .ok 0 else .error EINVAL
  | .is_used idx => answer = if idx < len then .ok (if idx ∈ used then 1 else 0) else .error EINVAL
  | .find_next_free start =>
    if len ≤ start then answer = .error EINVAL
    else if used.card = len then answer = .error ENOSPC
    else Finds (fun p => start ≤ p ∧ p < len ∧ p ∉ used) (-ENOSPC) answer
  | .find_next_used start =>
    if len ≤ start then answer = .error EINVAL
    else if used = ∅ then answer = .error ENOENT
    else Finds (fun p => start ≤ p ∧ p < len ∧ p ∈ used) (-ENOENT) answer
  | .find_contig_free start =>
    if len ≤ start then answer = .error EINVAL
    else if used.card = len then answer = .error ENOSPC
    else ∃ n, answer = .ok n ∧ IsRun (fun p => p < len ∧ p ∉ used) start n
  | .find_contig_used start =>
    if len ≤ start then answer = .error EINVAL
    else ∃ n, answer = .ok n ∧ IsRun (fun p => p < len ∧ p ∈ used) start n
  | .find_next_n_free start n =>
    if len ≤ start ∨ len < n then answer = .error EINVAL
    else if used.card = len ∨ len - used.card < n then answer = .error ENOSPC
    else 0 < n → FindsRun (fun p => p ∉ used) len start n (-ENOSPC) answer
  | .find_next_n_used start n =>
    if len ≤ start ∨ len < n then answer = .error EINVAL
    else if used.card < n then answer = .error ENOENT
    else 0 < n → FindsRun (fun p => p ∈ used) len start n (-ENOENT) answer

end Spec

namespace RteFbarray

variable {arr arr' : RteFbarray} {len idx p : ℕ} {wraps : Bool}

section Invariant

theorem Valid.mem_usedSet (valid : arr.Valid) : p ∈ arr.usedSet ↔ arr.marked p = true := by
  rw [usedSet, Finset.mem_filter, Finset.mem_range]
  refine and_iff_right_of_imp fun set => ?_
  by_contra beyond
  rw [valid.outside p (Nat.not_lt.mp beyond)] at set
  contradiction

theorem Valid.not_mem_usedSet (valid : arr.Valid) : p ∉ arr.usedSet ↔ arr.marked p = false := by
  rw [valid.mem_usedSet, Bool.not_eq_true]

/-- A new array: its length is kept, and nothing is used. -/
theorem valid_init {mapped : Except ℤ ℕ} {name : Option (List UInt8)} {elt_sz : ℕ}
    (created : rte_fbarray_init mapped name len elt_sz = .ok arr) : arr.Valid ∧ arr.len = len ∧
    arr.usedSet = ∅ := by
  unfold rte_fbarray_init fully_validate at created
  cases name with
  | none => contradiction
  | some name =>
    simp only at created
    split_ifs at created with invalid long
    · contradiction
    · contradiction
    · cases mapped with
      | error e => contradiction
      | ok data =>
        obtain rfl := Except.ok.inj created
        obtain ⟨_, positive, bound⟩ := not_or.mp invalid |>.imp_right not_or.mp
        have unmarked : ∀ p, member (fun _ => (0 : BitVec 64)) p = false := fun p => BitVec.getLsbD_zero
        have empty : (Finset.range len).filter (fun p => member (fun _ => (0 : BitVec 64)) p =
          true) = ∅ := by
          refine Finset.filter_eq_empty_iff.mpr fun p _ => ?_
          rw [unmarked]
          exact Bool.false_ne_true
        refine ⟨⟨Nat.pos_of_ne_zero positive, Nat.not_lt.mp bound, masks_eq (Nat.not_lt.mp bound),
          fun p _ => unmarked p, ?_⟩, rfl, empty⟩
        exact (congrArg Finset.card empty).symm

theorem Valid.isBitSet_eq (valid : arr.Valid) (inside : idx < arr.len) : arr.isBitSet idx =
    arr.marked idx := by
  have bit := and_bit_ne_zero (x := arr.msk.data (idx / 64)) (Nat.mod_lt idx (by decide : 0 < 64))
  rw [isBitSet, mask_idx, mask_mod (valid.small inside), Bool.eq_iff_iff, decide_eq_true_eq, bit]
  rfl

/-- One element is marked, or is not marked any more. -/
structure Remarked (arr : RteFbarray) (idx : ℕ) (used : Bool) (arr' : RteFbarray) : Prop where
  len : arr'.len = arr.len
  masks : arr'.msk.n_masks = arr.msk.n_masks
  marked : ∀ p, arr'.marked p = if p = idx then used else arr.marked p

theorem Remarked.usedSet_set (remarked : arr.Remarked idx true arr') (inside : idx < arr.len) :
    arr'.usedSet = insert idx arr.usedSet := by
  ext p
  simp only [usedSet, Finset.mem_filter, Finset.mem_range, Finset.mem_insert, remarked.len,
    remarked.marked]
  split_ifs with same
  · simp [same, inside]
  · simp [same]

theorem Remarked.usedSet_free (remarked : arr.Remarked idx false arr') : arr'.usedSet =
    arr.usedSet.erase idx := by
  ext p
  simp only [usedSet, Finset.mem_filter, Finset.mem_range, Finset.mem_erase, remarked.len,
    remarked.marked]
  split_ifs with same
  · simp [same]
  · simp [same]

theorem Valid.count_le (valid : arr.Valid) : arr.count ≤ arr.len := by
  rw [valid.count]
  exact (Finset.card_filter_le ..).trans_eq (Finset.card_range _)

theorem Valid.remarked {used : Bool} (valid : arr.Valid) (inside : idx < arr.len)
    (remarked : arr.Remarked idx used arr') (counted : arr'.count = arr'.usedSet.card) :
    arr'.Valid where
  len_pos := remarked.len ▸ valid.len_pos
  len_le := remarked.len ▸ valid.len_le
  masks := by rw [remarked.masks, remarked.len, valid.masks]
  outside p beyond := by
    rw [remarked.len] at beyond
    rw [remarked.marked, if_neg (by omega)]
    exact valid.outside p beyond
  count := counted

theorem Valid.remarked_set (valid : arr.Valid) (inside : idx < arr.len) (count : ℕ) :
    arr.Remarked idx true
      (arr.setWord (MASK_LEN_TO_IDX idx)
        (arr.msk.data (MASK_LEN_TO_IDX idx) ||| 1#64 <<< MASK_LEN_TO_MOD idx) count) := by
  refine ⟨rfl, rfl, fun p => ?_⟩
  change member (Function.update arr.msk.data (MASK_LEN_TO_IDX idx) _) p = _
  rw [mask_idx, mask_mod (valid.small inside), member_set (by decide)]
  split_ifs with same <;> simp [same, marked]

theorem Valid.remarked_free (valid : arr.Valid) (inside : idx < arr.len) (count : ℕ) :
    arr.Remarked idx false
      (arr.setWord (MASK_LEN_TO_IDX idx)
        (arr.msk.data (MASK_LEN_TO_IDX idx) &&& ~~~(1#64 <<< MASK_LEN_TO_MOD idx)) count) := by
  refine ⟨rfl, rfl, fun p => ?_⟩
  change member (Function.update arr.msk.data (MASK_LEN_TO_IDX idx) _) p = _
  rw [mask_idx, mask_mod (valid.small inside), member_clear (by decide)]
  split_ifs with same <;> simp [same, marked]

/-- What `set_used` leaves, whether the element changes or not. -/
structure SetsUsed (arr : RteFbarray) (used : Finset ℕ) (result : RteFbarray × Except ℤ ℕ)
    (answer : Except ℤ ℕ) : Prop where
  valid : result.1.Valid
  len : result.1.len = arr.len
  used : result.1.usedSet = used
  answer : result.2 = answer

theorem Valid.set_used_outside (valid : arr.Valid) (outside : ¬ idx < arr.len) (used : Bool) :
    SetsUsed arr arr.usedSet (arr.set_used idx used) (.error EINVAL) := by
  simp only [RteFbarray.set_used]
  rw [if_pos (Nat.not_lt.mp outside)]
  exact ⟨valid, rfl, rfl, rfl⟩

theorem Valid.set_used_true (valid : arr.Valid) (inside : idx < arr.len) :
    SetsUsed arr (insert idx arr.usedSet) (arr.set_used idx true) (.ok 0) := by
  have bounded := valid.count_le
  have small := valid.len_le
  rw [INT_MAX] at small
  simp only [RteFbarray.set_used, valid.isBitSet_eq inside]
  rw [if_neg (Nat.not_le.mpr inside)]
  by_cases already : true = arr.marked idx
  · rw [if_pos already]
    exact ⟨valid, rfl, (Finset.insert_eq_of_mem (valid.mem_usedSet.mpr already.symm)).symm, rfl⟩
  · rw [if_neg already, if_pos trivial]
    have remarked := valid.remarked_set inside ((arr.count + 1) % 2 ^ 32)
    have changed := remarked.usedSet_set inside
    have absent : idx ∉ arr.usedSet := fun present => already (valid.mem_usedSet.mp present).symm
    refine ⟨valid.remarked inside remarked ?_, rfl, changed, rfl⟩
    rw [changed, Finset.card_insert_of_notMem absent, ← valid.count]
    exact Nat.mod_eq_of_lt (by omega)

theorem Valid.set_used_false (valid : arr.Valid) (inside : idx < arr.len) :
    SetsUsed arr (arr.usedSet.erase idx) (arr.set_used idx false) (.ok 0) := by
  simp only [RteFbarray.set_used, valid.isBitSet_eq inside]
  rw [if_neg (Nat.not_le.mpr inside)]
  by_cases already : false = arr.marked idx
  · rw [if_pos already]
    exact ⟨valid, rfl, (Finset.erase_eq_of_notMem (valid.not_mem_usedSet.mpr already.symm)).symm, rfl⟩
  · rw [if_neg already, if_neg Bool.false_ne_true]
    have remarked := valid.remarked_free inside (sub32 arr.count 1)
    have changed := remarked.usedSet_free
    have present : idx ∈ arr.usedSet := by
      by_contra absent
      exact already (valid.not_mem_usedSet.mp absent).symm
    have some := Finset.card_pos.mpr ⟨idx, present⟩
    refine ⟨valid.remarked inside remarked ?_, rfl, changed, rfl⟩
    rw [changed, Finset.card_erase_of_mem present, ← valid.count]
    exact sub32_of_le (valid.count ▸ some)

end Invariant

section Answers

/-- All elements are used, or none is. -/
theorem Valid.full_iff (valid : arr.Valid) : arr.len = arr.count ↔ arr.usedSet.card = arr.len := by
  rw [← valid.count, eq_comm]

theorem Valid.count_eq_zero (valid : arr.Valid) : arr.count = 0 ↔ arr.usedSet = ∅ := by
  rw [valid.count, Finset.card_eq_zero]

theorem Valid.answers (valid : arr.Valid) (request : FbarrayRequest) :
    Answers arr.len arr.usedSet (arr.call wraps request).2 request := by
  cases request with
  | set_used idx =>
    by_cases inside : idx < arr.len
    · exact (valid.set_used_true inside).answer.trans (if_pos inside).symm
    · exact (valid.set_used_outside inside true).answer.trans (if_neg inside).symm
  | set_free idx =>
    by_cases inside : idx < arr.len
    · exact (valid.set_used_false inside).answer.trans (if_pos inside).symm
    · exact (valid.set_used_outside inside false).answer.trans (if_neg inside).symm
  | is_used idx =>
    simp only [call, Answers, rte_fbarray_is_used]
    by_cases inside : idx < arr.len
    · rw [if_neg (Nat.not_le.mpr inside), if_pos inside, valid.isBitSet_eq inside]
      simp only [valid.mem_usedSet]
    · rw [if_pos (Nat.not_lt.mp inside), if_neg inside]
  | find_next_free start =>
    simp only [call, Answers, rte_fbarray_find_next_free, valid.full_iff, valid.not_mem_usedSet]
    split_ifs with outside full
    · rfl
    · rfl
    · exact valid.find_next_finds (Nat.not_le.mp outside) false
  | find_next_used start =>
    simp only [call, Answers, rte_fbarray_find_next_used, valid.count_eq_zero, valid.mem_usedSet]
    split_ifs with outside empty
    · rfl
    · rfl
    · exact valid.find_next_finds (Nat.not_le.mp outside) true
  | find_next_n_free start n =>
    simp only [call, Answers, rte_fbarray_find_next_n_free, valid.full_iff, valid.not_mem_usedSet]
    rw [valid.count]
    split_ifs with outside few
    · rfl
    · rfl
    · exact fun positive => valid.find_next_n_finds (by omega) positive wraps false
  | find_next_n_used start n =>
    simp only [call, Answers, rte_fbarray_find_next_n_used, valid.mem_usedSet, valid.count]
    split_ifs with outside few
    · rfl
    · rfl
    · exact fun positive => valid.find_next_n_finds (by omega) positive wraps true
  | find_contig_free start =>
    simp only [call, Answers, rte_fbarray_find_contig_free, valid.full_iff, valid.not_mem_usedSet]
    split_ifs with outside full empty
    · rfl
    · rfl
    · refine ⟨_, rfl, fun p lower upper => ⟨by omega, ?_⟩, fun counts => ?_⟩
      · rw [← valid.not_mem_usedSet, valid.count_eq_zero.mp empty]
        exact Finset.notMem_empty p
      · have := counts.1
        omega
    · exact ⟨_, rfl, valid.find_contig_isRun (Nat.not_le.mp outside) false⟩
  | find_contig_used start =>
    simp only [call, Answers, rte_fbarray_find_contig_used, valid.mem_usedSet]
    split_ifs with outside
    · rfl
    · exact ⟨_, rfl, valid.find_contig_isRun (Nat.not_le.mp outside) true⟩

theorem Valid.next (valid : arr.Valid) (wraps : Bool) (request : FbarrayRequest) :
    (arr.call wraps request).1.Valid ∧
    (arr.call wraps request).1.len = arr.len ∧ (arr.call wraps request).1.usedSet =
    nextUsed arr.len arr.usedSet request := by
  cases request with
  | set_used idx =>
    simp only [nextUsed]
    split_ifs with inside
    · have sets := valid.set_used_true inside
      exact ⟨sets.valid, sets.len, sets.used⟩
    · have sets := valid.set_used_outside inside true
      exact ⟨sets.valid, sets.len, sets.used⟩
  | set_free idx =>
    by_cases inside : idx < arr.len
    · have sets := valid.set_used_false inside
      exact ⟨sets.valid, sets.len, sets.used⟩
    · have sets := valid.set_used_outside inside false
      have absent := valid.not_mem_usedSet.mpr (valid.outside idx (Nat.not_lt.mp inside))
      exact ⟨sets.valid, sets.len, sets.used.trans (Finset.erase_eq_of_notMem absent).symm⟩
  | is_used | find_next_free | find_next_used | find_next_n_free | find_next_n_used | find_contig_free
  | find_contig_used =>
    exact ⟨valid, rfl, rfl⟩

end Answers

section Results

theorem valid_of_run {mapped : Except ℤ ℕ} {name : Option (List UInt8)} {elt_sz : ℕ}
    {initial : RteFbarray} (created : rte_fbarray_init mapped name len elt_sz = .ok initial)
    {events : List (FbarrayRequest × Except ℤ ℕ)} (run : Run (Step wraps) initial events arr) :
    arr.Valid ∧ arr.len = len ∧ arr.usedSet = usedAfter len (events.map Prod.fst) := by
  obtain ⟨valid, length, empty⟩ := valid_init created
  refine run.history (fun events arr => arr.Valid ∧ arr.len = len ∧
    arr.usedSet = usedAfter len (events.map Prod.fst))
    ?_ ⟨valid, length, empty⟩
  rintro events arr ⟨request, answer⟩ arr' ⟨valid, length, used⟩ step
  obtain rfl : (arr.call wraps request).1 = arr' := congrArg Prod.fst step
  obtain ⟨valid', length', used'⟩ := valid.next wraps request
  refine ⟨valid', length'.trans length, ?_⟩
  rw [used', used, length, List.map_append, usedAfter, usedAfter, List.foldl_append]
  rfl

theorem answers_after {mapped : Except ℤ ℕ} {name : Option (List UInt8)} {elt_sz : ℕ}
    {initial : RteFbarray} (created : rte_fbarray_init mapped name len elt_sz = .ok initial)
    {events : List (FbarrayRequest × Except ℤ ℕ)} (run : Run (Step wraps) initial events arr)
    (request : FbarrayRequest) :
    Answers len (usedAfter len (events.map Prod.fst)) (arr.call wraps request).2 request := by
  obtain ⟨valid, rfl, used⟩ := valid_of_run created run
  rw [← used]
  exact valid.answers request

/-- After every run of requests on a new array the count is the number of the elements that are used then, and every
request is answered from them. -/
theorem fbarray_refines_set {mapped : Except ℤ ℕ} {name : Option (List UInt8)} {elt_sz : ℕ}
    {initial : RteFbarray} (created : rte_fbarray_init mapped name len elt_sz = .ok initial)
    {events : List (FbarrayRequest × Except ℤ ℕ)} (run : Run (Step wraps) initial events arr) :
    arr.count = (usedAfter len (events.map Prod.fst)).card ∧
      ∀ request, Answers len (usedAfter len (events.map Prod.fst))
    (arr.call wraps request).2 request := by
  obtain ⟨valid, _, used⟩ := valid_of_run created run
  exact ⟨used ▸ valid.count, answers_after created run⟩

/-- 130 elements of eight bytes: two words and a part of a third one. -/
def newArray : RteFbarray where
  name := [102]
  count := 0
  len := 130
  elt_sz := 8
  data := 4096
  msk := ⟨3, fun _ => 0⟩

def marksTwo : List (FbarrayRequest × Except ℤ ℕ) :=
  [(.set_used 0, .ok 0), (.set_used 1, .ok 0), (.set_used 129, .ok 0), (.set_free 1, .ok 0),
    (.set_used 130, .error EINVAL)]

theorem newArray_refines : ∃ arr, Run (Step true) newArray marksTwo arr ∧ arr.count = 2 ∧
    ∀ request, Answers 130 {129, 0} (arr.call true request).2 request := by
  have run : Run (Step true) newArray marksTwo _ :=
    .cons rfl (.cons rfl (.cons rfl (.cons rfl (.cons rfl .start))))
  have created : rte_fbarray_init (.ok 4096) (some [102]) 130 8 = .ok newArray := rfl
  obtain ⟨counted, answers⟩ := fbarray_refines_set created run
  exact ⟨_, run, counted, answers⟩

end Results

end RteFbarray

end LinuxZero.Fbarray
