import LinuxZero.Fbarray.RteFbarray
import LinuxZero.Ring.RteRing

/-! # What the queries find

The mask is the set of the used elements. A word is looked at through the parts of the first and of the last word that
are ignored, so that just the wanted elements from `start` on are left.
-/

namespace LinuxZero.Fbarray

section Arithmetic

variable {x : ℕ}

theorem align_floor {k : ℕ} (small : k ≤ 32) (bound : x < 2 ^ 32) : RTE_ALIGN_FLOOR x (2 ^ k) =
    x - x % 2 ^ k :=
  Ring.and_clear small bound

theorem mask_align : MASK_ALIGN = 2 ^ 6 := rfl

theorem mask_idx (x : ℕ) : MASK_LEN_TO_IDX x = x / 64 := Nat.shiftRight_eq_div_pow x 6

theorem mask_mod (bound : x < 2 ^ 32) : MASK_LEN_TO_MOD x = x % 64 := by
  rw [MASK_LEN_TO_MOD, mask_align, align_floor (by decide) bound]
  have := Nat.mod_le x (2 ^ 6)
  omega

theorem mask_get (idx mod : ℕ) : MASK_GET_IDX idx mod = idx * 64 + mod := by
  rw [MASK_GET_IDX, Nat.shiftLeft_eq]
  rfl

theorem masks_eq {len : ℕ} (bound : len ≤ INT_MAX) :
    MASK_LEN_TO_IDX (RTE_ALIGN_CEIL len MASK_ALIGN) = (len + 63) / 64 := by
  have small : len + 63 < 2 ^ 32 := by
    rw [INT_MAX] at bound
    omega
  have whole : (len + (MASK_ALIGN - 1)) % 2 ^ 32 = len + 63 := Nat.mod_eq_of_lt small
  rw [RTE_ALIGN_CEIL, whole, mask_align, align_floor (by decide) small, mask_idx]
  omega

end Arithmetic

/-- An answer to a search, with the error that stands for nothing. -/
def Finds (P : ℕ → Prop) (errno : ℤ) : Except ℤ ℕ → Prop
  | .ok r => IsLeast {p | P p} r
  | .error e => e = errno ∧ ∀ p, ¬ P p

/-- `n` is how many elements from `start` on have the property. -/
def IsRun (P : ℕ → Prop) (start n : ℕ) : Prop := (∀ p, start ≤ p → p < start + n → P p) ∧ ¬ P (start + n)

namespace RteFbarray

variable {arr : RteFbarray} {start p n : ℕ} {used : Bool}

/-- Whether the element is marked. -/
def marked (arr : RteFbarray) (p : ℕ) : Bool := member arr.msk.data p

/-- The marked elements. -/
def usedSet (arr : RteFbarray) : Finset ℕ := (Finset.range arr.len).filter fun p => arr.marked p = true

structure Valid (arr : RteFbarray) : Prop where
  len_pos : 0 < arr.len
  len_le : arr.len ≤ INT_MAX
  masks : arr.msk.n_masks = (arr.len + 63) / 64
  outside : ∀ p, arr.len ≤ p → arr.marked p = false
  count : arr.count = arr.usedSet.card

section Words

theorem word_bit (idx : ℕ) {i : ℕ} (inside : i < 64) :
    (arr.word used idx).getLsbD i = true ↔ arr.marked (idx * 64 + i) = used := by
  rw [marked, member_of_word _ inside, word]
  cases used
  · rw [if_neg Bool.false_ne_true, BitVec.getLsbD_not, decide_eq_true inside, Bool.true_and,
      Bool.not_eq_true']
  · rw [if_pos rfl]

theorem Valid.small (valid : arr.Valid) (inside : start < arr.len) : start < 2 ^ 32 := by
  have bound := valid.len_le
  rw [INT_MAX] at bound
  omega

/-- What lies behind the array is cut off. -/
theorem Valid.cut_bit (valid : arr.Valid) (used : Bool) {idx i : ℕ} (within : idx < arr.msk.n_masks)
    (inside : i < 64) :
    (if idx = MASK_LEN_TO_IDX arr.len then arr.word used idx &&& arr.last_msk
      else arr.word used idx).getLsbD i = true ↔
      idx * 64 + i < arr.len ∧ arr.marked (idx * 64 + i) = used := by
  have bound := valid.len_le
  rw [INT_MAX] at bound
  rw [valid.masks] at within
  rw [mask_idx]
  split_ifs with last
  · rw [BitVec.getLsbD_and, last_msk, getLsbD_until, mask_mod (by omega), Bool.and_eq_true,
      word_bit idx inside, decide_eq_true inside, Bool.and_true, decide_eq_true_eq, and_comm]
    refine and_congr_left fun _ => ?_
    omega
  · rw [word_bit idx inside]
    refine (and_iff_right ?_).symm
    omega

theorem Valid.nextWord_bit (valid : arr.Valid) (inside : start < arr.len) {idx i : ℕ}
    (from_first : start / 64 ≤ idx) (within : idx < arr.msk.n_masks) (bit : i < 64) :
    (arr.nextWord start used idx).getLsbD i = true ↔
      start ≤ idx * 64 + i ∧ idx * 64 + i < arr.len ∧ arr.marked (idx * 64 + i) = used := by
  have cut := valid.cut_bit used within bit
  simp only [nextWord]
  rw [mask_idx start]
  by_cases first : idx = start / 64
  · rw [if_pos first, BitVec.getLsbD_and, Bool.and_eq_true, cut, ignore_msk, getLsbD_from,
      mask_mod (valid.small inside),
      decide_eq_true bit, Bool.and_true, decide_eq_true_eq, and_comm]
    refine and_congr_left fun _ => ?_
    omega
  · rw [if_neg first, cut]
    refine (and_iff_right ?_).symm
    omega

end Words

section FindNext

/-- The positions that a search for `used` elements is about. -/
def Wanted (arr : RteFbarray) (start : ℕ) (used : Bool) (p : ℕ) : Prop :=
  start ≤ p ∧ p < arr.len ∧ arr.marked p = used

theorem Valid.find_next_finds (valid : arr.Valid) (inside : start < arr.len) (used : Bool) :
    Finds (arr.Wanted start used) (notFound used) (arr.find_next start used) := by
  have search := isFirst_findSome (by decide : 0 < 64) (arr.nextWord start used) (start / 64)
    (arr.msk.n_masks - start / 64)
  have isFirst := search.congr (Q := arr.Wanted start used) fun p => by
    have bit := Nat.mod_lt p (by decide : 0 < 64)
    have split := Nat.div_add_mod' p 64
    have masks := valid.masks
    constructor
    · rintro ⟨lower, upper, set⟩
      have wanted := (valid.nextWord_bit inside lower (by omega) bit).mp set
      rwa [split] at wanted
    · intro wanted
      have lower : start / 64 ≤ p / 64 := Nat.div_le_div_right wanted.1
      have upper : p / 64 < arr.msk.n_masks := by
        have := wanted.2.1
        omega
      refine ⟨lower, by omega, (valid.nextWord_bit inside lower upper bit).mpr ?_⟩
      rwa [split]
  simp only [find_next, mask_idx, mask_get]
  revert isFirst
  cases (List.range' (start / 64) (arr.msk.n_masks - start / 64)).findSome? fun idx =>
      if arr.nextWord start used idx = 0 then none
        else some (idx * 64 + (arr.nextWord start used idx).ctz.toNat) with
  | some r => exact id
  | none => exact fun none => ⟨rfl, none⟩

end FindNext

section FindContig

/-- The elements that count for a run. -/
def Counts (arr : RteFbarray) (used : Bool) (p : ℕ) : Prop := p < arr.len ∧ arr.marked p = used

/-- How much of the word lies before `start`. -/
def offset (start idx : ℕ) : ℕ := if idx = start / 64 then start % 64 else 0

theorem offset_lt (start idx : ℕ) : offset start idx < 64 := by
  unfold offset
  split_ifs
  · exact Nat.mod_lt _ (by decide)
  · decide

theorem Valid.contigWord_bit (valid : arr.Valid) (used : Bool) (inside : start < arr.len)
    {idx i : ℕ} (within : idx < arr.msk.n_masks) (bit : i < 64) :
    (arr.contigWord start used idx).getLsbD i = true ↔
      i < 64 - offset start idx ∧ arr.Counts used (idx * 64 + offset start idx + i) := by
  simp only [contigWord, offset]
  rw [mask_idx start, mask_mod (valid.small inside)]
  by_cases first : idx = start / 64
  · rw [if_pos first, if_pos first, BitVec.getLsbD_ushiftRight]
    by_cases kept : start % 64 + i < 64
    · rw [valid.cut_bit used within kept, ← Nat.add_assoc]
      exact (and_iff_right (by omega)).symm
    · rw [BitVec.getLsbD_of_ge _ _ (Nat.not_lt.mp kept)]
      refine iff_of_false Bool.false_ne_true fun both => ?_
      omega
  · rw [if_neg first, if_neg first, valid.cut_bit used within bit]
    exact (and_iff_right bit).symm

theorem getLsbD_of_not {x : BitVec 64} {i : ℕ} (bit : i < 64) (zero : (~~~x).getLsbD i = false) :
    x.getLsbD i = true := by
  rw [BitVec.getLsbD_not, decide_eq_true bit, Bool.true_and] at zero
  exact (Bool.not_eq_false' _).mp zero

/-- Counting stops inside a word, or the word counts as a whole. -/
theorem Valid.contig_word (valid : arr.Valid) (used : Bool) (inside : start < arr.len) {idx : ℕ}
    (within : idx < arr.msk.n_masks) :
    if ~~~arr.contigWord start used idx ≠ 0 ∧
    (~~~arr.contigWord start used idx).ctz.toNat < 64 - offset start idx then
      IsRun (arr.Counts used) (idx * 64 + offset start idx) (~~~arr.contigWord start used idx).ctz.toNat
    else ∀ i < 64 - offset start idx, arr.Counts used (idx * 64 + offset start idx + i) := by
  have bits := fun {i : ℕ} => valid.contigWord_bit used inside within (i := i)
  split_ifs with stops
  · obtain ⟨nonzero, short⟩ := stops
    refine ⟨fun p lower upper => ?_, fun counts => ?_⟩
    · obtain ⟨i, rfl⟩ := Nat.exists_eq_add_of_le lower
      have early : i < (~~~arr.contigWord start used idx).ctz.toNat := by omega
      have bit : i < 64 := by omega
      exact ((bits bit).mp (getLsbD_of_not bit (BitVec.getLsbD_false_of_lt_ctz early))).2
    · have set : (~~~arr.contigWord start used idx).getLsbD
        (~~~arr.contigWord start used idx).ctz.toNat = true :=
        (isLeast_ctz nonzero).1
      have bit := BitVec.lt_of_getLsbD set
      rw [BitVec.getLsbD_not, (bits bit).mpr ⟨short, counts⟩, Bool.not_true, Bool.and_false] at set
      contradiction
  · intro i small
    have bit : i < 64 := by omega
    refine ((bits bit).mp (getLsbD_of_not bit ?_)).2
    by_cases zero : ~~~arr.contigWord start used idx = 0
    · rw [zero, BitVec.ofNat_eq_ofNat, BitVec.getLsbD_zero]
    · have long := not_and.mp stops zero
      exact BitVec.getLsbD_false_of_lt_ctz (by omega)

/-- The loop, with the words from `idx` on left and all elements counted so far. -/
theorem Valid.contigLoop_isRun (valid : arr.Valid) (inside : start < arr.len) (count : ℕ) {idx result : ℕ}
    (rest : idx + count = arr.msk.n_masks) (from_first : start / 64 ≤ idx)
    (counted : start + result = idx * 64 + offset start idx)
    (run : ∀ p, start ≤ p → p < start + result → arr.Counts used p) :
    IsRun (arr.Counts used) start (arr.contigLoop start used (List.range' idx count) result) := by
  induction count generalizing idx result with
  | zero =>
    rw [List.range'_zero, contigLoop]
    refine ⟨run, fun counts => ?_⟩
    have short := counts.1
    have masks := valid.masks
    rw [counted] at short
    omega
  | succ count ih =>
    have within : idx < arr.msk.n_masks := by omega
    have word := valid.contig_word used inside within
    have small := offset_lt start idx
    have need : (if idx = MASK_LEN_TO_IDX start then MASK_ALIGN - MASK_LEN_TO_MOD start
      else MASK_ALIGN) = 64 - offset start idx := by
      rw [mask_idx, mask_mod (valid.small inside), offset]
      split_ifs <;> rfl
    have later : offset start (idx + 1) = 0 := if_neg (by omega)
    -- The word counts as a whole: the next one starts where its elements end.
    have whole : (∀ i < 64 - offset start idx, arr.Counts used (idx * 64 + offset start idx + i)) →
        IsRun (arr.Counts used) start (arr.contigLoop start used (List.range' (idx + 1) count)
          (result + (64 - offset start idx))) := by
      intro all
      refine ih (by omega) (by omega) (by omega) fun p lower upper => ?_
      rcases Nat.lt_or_ge p (start + result) with before | beyond
      · exact run p lower before
      · obtain ⟨i, rfl⟩ := Nat.exists_eq_add_of_le beyond
        rw [counted]
        exact all i (by omega)
    rw [List.range'_succ, contigLoop]
    simp only [need]
    by_cases zero : ~~~arr.contigWord start used idx = 0
    · rw [if_neg (fun both => both.1 zero)] at word
      rw [if_pos zero]
      exact whole word
    · rw [if_neg zero]
      split_ifs with short
      · rw [if_pos ⟨zero, short⟩, ← counted] at word
        refine ⟨fun p lower upper => ?_, ?_⟩
        · rcases Nat.lt_or_ge p (start + result) with before | beyond
          · exact run p lower before
          · exact word.1 p beyond (by omega)
        · rw [← Nat.add_assoc]
          exact word.2
      · rw [if_neg (fun both => short both.2)] at word
        exact whole word

theorem Valid.find_contig_isRun (valid : arr.Valid) (inside : start < arr.len) (used : Bool) :
    IsRun (arr.Counts used) start (arr.find_contig start used) := by
  have masks := valid.masks
  rw [find_contig, mask_idx]
  refine valid.contigLoop_isRun inside _ (by omega) le_rfl ?_ fun p lower upper =>
    absurd lower (Nat.not_le.mpr upper)
  rw [offset, if_pos rfl, Nat.div_add_mod']
  rfl

end FindContig

end RteFbarray

end LinuxZero.Fbarray
