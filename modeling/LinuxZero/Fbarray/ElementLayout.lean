import LinuxZero.Fbarray.FbarrayRuns

/-! # Where the elements lie

The elements follow each other from the start of the mapping, and the mask follows them. The products are taken in 32
bits, so that all of this needs elements that take less than 4 GiB.
-/

namespace LinuxZero.Fbarray

namespace RteFbarray

variable {arr : RteFbarray} {len idx : ℕ}

/-- The bytes of an element. -/
def Occupies (arr : RteFbarray) (idx elt : ℕ) : Prop :=
  arr.data + idx * arr.elt_sz ≤ elt ∧ elt < arr.data + (idx + 1) * arr.elt_sz

theorem end_le (inside : idx < arr.len) : (idx + 1) * arr.elt_sz ≤ arr.elt_sz * arr.len := by
  rw [Nat.mul_comm arr.elt_sz]
  exact Nat.mul_le_mul_right _ inside

theorem get_eq (inside : idx < arr.len) (fits : arr.elt_sz * arr.len < 2 ^ 32) :
    arr.rte_fbarray_get idx = .ok (arr.data + idx * arr.elt_sz) := by
  have within := end_le inside
  rw [Nat.succ_mul] at within
  rw [rte_fbarray_get, if_neg (Nat.not_le.mpr inside), Nat.mod_eq_of_lt (by omega)]

/-- An address is inside an element exactly when that element is found for it. -/
theorem find_idx_eq_iff (mapped : 0 < arr.data) (sized : 0 < arr.elt_sz)
    (fits : arr.elt_sz * arr.len < 2 ^ 32) (elt : ℕ) :
    arr.rte_fbarray_find_idx elt = .ok idx ↔ idx < arr.len ∧ arr.Occupies idx elt := by
  rw [rte_fbarray_find_idx, Nat.mod_eq_of_lt fits, Occupies]
  constructor
  · intro found
    split_ifs at found with null outside
    obtain ⟨lower, upper⟩ := not_or.mp outside
    obtain rfl := Except.ok.inj found
    have below := Nat.div_mul_le_self (elt - arr.data) arr.elt_sz
    have above := Nat.lt_mul_of_div_lt (Nat.lt_succ_self ((elt - arr.data) / arr.elt_sz)) sized
    refine ⟨Nat.div_lt_of_lt_mul (by omega), by omega, ?_⟩
    rw [Nat.succ_eq_add_one] at above
    omega
  · rintro ⟨inside, lower, upper⟩
    have within := end_le inside
    rw [if_neg (by omega), if_neg (by omega)]
    refine congrArg Except.ok (Nat.div_eq_of_lt_le ?_ ?_) <;> omega

/-- Requests leave the elements where they are. -/
theorem call_place (wraps : Bool) (arr : RteFbarray) (request : FbarrayRequest) :
    (arr.call wraps request).1.data = arr.data ∧
    (arr.call wraps request).1.elt_sz = arr.elt_sz ∧ (arr.call wraps request).1.len = arr.len := by
  cases request with
  | set_used idx | set_free idx =>
    simp only [call, rte_fbarray_set_used, rte_fbarray_set_free, RteFbarray.set_used]
    split_ifs <;> exact ⟨rfl, rfl, rfl⟩
  | is_used | find_next_free | find_next_used | find_next_n_free | find_next_n_used | find_contig_free
  | find_contig_used =>
    exact ⟨rfl, rfl, rfl⟩

theorem mapping_holds_mask {page_sz k data elt_sz : ℕ} (pages : page_sz = 2 ^ k) (small : k ≤ 32)
    (bound : len ≤ INT_MAX) :
    get_used_mask data elt_sz len + calc_mask_size len ≤ data + calc_data_size page_sz elt_sz len := by
  have page : page_sz ≤ 2 ^ 32 := pages ▸ Nat.pow_le_pow_right Nat.zero_lt_two small
  have positive : 0 < page_sz := pages ▸ Nat.two_pow_pos k
  have product := Nat.mod_lt (elt_sz * len) (Nat.two_pow_pos 32)
  have mask : calc_mask_size len ≤ 2 ^ 32 := by
    rw [calc_mask_size, masks_eq bound, sizeofUsedMask, sizeofWord]
    rw [INT_MAX] at bound
    omega
  have rounded : calc_data_size page_sz elt_sz len =
      (elt_sz * len % 2 ^ 32 + calc_mask_size len + (page_sz - 1)) -
        (elt_sz * len % 2 ^ 32 + calc_mask_size len + (page_sz - 1)) % page_sz := by
    rw [calc_data_size, pages]
    exact Ring.and_clear (by omega) (by omega)
  have less := Nat.mod_lt (elt_sz * len % 2 ^ 32 + calc_mask_size len + (page_sz - 1)) positive
  rw [get_used_mask, rounded]
  omega

theorem init_fields {mapped : Except ℤ ℕ} {name : Option (List UInt8)} {elt_sz : ℕ}
    (created : rte_fbarray_init mapped name len elt_sz = .ok arr) : 0 < arr.elt_sz ∧
    mapped = .ok arr.data ∧ arr.elt_sz = elt_sz := by
  unfold rte_fbarray_init fully_validate at created
  cases name with
  | none => contradiction
  | some name =>
    simp only at created
    split_ifs at created with invalid long
    · contradiction
    · contradiction
    · cases mapped with
      | error e => contradiction
      | ok data =>
        obtain rfl := Except.ok.inj created
        exact ⟨Nat.pos_of_ne_zero (not_or.mp invalid).1, rfl, rfl⟩

/-- In every array that a run leads to, each address of the mapping in front of the mask belongs to the element that
is found for it, no other address belongs to one, and the mask is inside the mapping. -/
theorem fbarray_elements_located {name : Option (List UInt8)} {data elt_sz page_sz k : ℕ}
    {wraps : Bool} {initial : RteFbarray}
    (created : rte_fbarray_init (.ok data) name len elt_sz = .ok initial)
    (fits : elt_sz * len < 2 ^ 32) (mapped : 0 < data) (pages : page_sz = 2 ^ k) (small : k ≤ 32)
    {events : List (FbarrayRequest × Except ℤ ℕ)} (run : Run (Step wraps) initial events arr) :
    (∀ idx elt, arr.rte_fbarray_find_idx elt = .ok idx ↔ idx < len ∧ arr.Occupies idx elt) ∧
      (∀ idx < len, ∃ elt, arr.rte_fbarray_get idx = .ok elt ∧ arr.rte_fbarray_find_idx elt = .ok idx) ∧
      (∀ elt, get_used_mask data elt_sz len ≤ elt →
        elt < get_used_mask data elt_sz len + calc_mask_size len →
        elt < data + calc_data_size page_sz elt_sz len ∧
        arr.rte_fbarray_find_idx elt = .error EINVAL) := by
  obtain ⟨valid, length, _⟩ := valid_init created
  have place : arr.data = initial.data ∧ arr.elt_sz = initial.elt_sz ∧ arr.len = initial.len := by
    refine run.invariant (fun arr => arr.data = initial.data ∧ arr.elt_sz = initial.elt_sz ∧
      arr.len = initial.len) ?_ ⟨rfl, rfl, rfl⟩
    rintro arr ⟨request, answer⟩ arr' kept step
    obtain rfl : (arr.call wraps request).1 = arr' := congrArg Prod.fst step
    obtain ⟨data, elt_sz, len⟩ := call_place wraps arr request
    exact ⟨data.trans kept.1, elt_sz.trans kept.2.1, len.trans kept.2.2⟩
  obtain ⟨sized, isData, isSize⟩ := init_fields created
  rw [← place.2.1] at sized
  have isData := Except.ok.inj isData
  obtain ⟨rfl, rfl, rfl⟩ : arr.data = data ∧ arr.elt_sz = elt_sz ∧ arr.len = len :=
    ⟨place.1.trans isData.symm, place.2.1.trans isSize, place.2.2.trans length⟩
  have find : ∀ idx elt, arr.rte_fbarray_find_idx elt = .ok idx ↔ idx < arr.len ∧ arr.Occupies idx elt :=
    fun _ elt => find_idx_eq_iff mapped sized fits elt
  refine ⟨find, fun idx inside => ⟨_, get_eq inside fits, ?_⟩, fun elt lower upper => ⟨?_, ?_⟩⟩
  · refine (find idx _).mpr ⟨inside, le_rfl, ?_⟩
    rw [Nat.succ_mul]
    omega
  · exact upper.trans_le (mapping_holds_mask pages small (length ▸ valid.len_le))
  · rw [get_used_mask] at lower
    rw [rte_fbarray_find_idx, if_neg (by omega), if_pos (Or.inr lower)]

theorem newArray_located : ∃ arr, Run (Step true) newArray marksTwo arr ∧
    (∀ idx elt, arr.rte_fbarray_find_idx elt = .ok idx ↔ idx < 130 ∧ arr.Occupies idx elt) := by
  have run : Run (Step true) newArray marksTwo _ :=
    .cons rfl (.cons rfl (.cons rfl (.cons rfl (.cons rfl .start))))
  have created : rte_fbarray_init (.ok 4096) (some [102]) 130 8 = .ok newArray := rfl
  have pages : 4096 = 2 ^ 12 := by decide
  exact ⟨_, run, (fbarray_elements_located created (by decide) (by decide) pages (by decide) run).1⟩

end RteFbarray

end LinuxZero.Fbarray
