import LinuxZero.Fbarray.Queries

/-! # Searching for consecutive elements

`find_next_n` looks for the run inside a word, and then for one that starts at the end of the word and goes on in the
next ones. A lookahead that loses its run skips one word too many, so that the search may pass over runs,
but never over so many whole words that the run fits behind the part that is ignored.
-/

namespace LinuxZero.Fbarray

/-- A run of whole words of wanted elements that has 63 elements to spare. It starts with word `a`. -/
structure SpareRun (P : ℕ → Prop) (len start n a m : ℕ) : Prop where
  behind : start ≤ a * 64
  inside : (a + m) * 64 ≤ len
  room : n + 63 ≤ m * 64
  full : ∀ p, a * 64 ≤ p → p < (a + m) * 64 → P p

/-- An answer of `find_next_n`. The elements that it finds are wanted ones, though those behind the array count as free;
on the last word it may go back behind `start`. No run of whole words that has 63 elements to spare is passed over: the
answer is not behind the first word of one, and where there is one the search does not fail. -/
def FindsRun (P : ℕ → Prop) (len start n : ℕ) (errno : ℤ) : Except ℤ ℕ → Prop
  | .ok r => (∀ k < n, P (r + k)) ∧ r + n ≤ (len + 63) / 64 * 64 ∧ (r / 64 < len / 64 → start ≤ r) ∧
      ∀ a m, SpareRun P len start n a m → r / 64 ≤ a
  | .error e => e = errno ∧ ∀ a m, ¬ SpareRun P len start n a m

namespace RteFbarray

variable {arr : RteFbarray} {start n : ℕ} {used wraps : Bool} {idx left : ℕ}

theorem sub32_of_le {m : ℕ} (le : m ≤ n) : sub32 n m = n - m := if_pos le

/-- The first elements of a word. -/
def Starts (arr : RteFbarray) (used : Bool) (idx need : ℕ) : Prop :=
  ∀ i < need, arr.marked (idx * 64 + i) = used

theorem starts_iff (arr : RteFbarray) (used : Bool) (idx : ℕ) {need : ℕ} (positive : 0 < need)
    (bound : need ≤ 64) :
    shiftAnd (arr.word used idx) (sub32 need 1) &&& 1#64 = 0#64 ↔ ¬ arr.Starts used idx need := by
  have bit : shiftAnd (arr.word used idx) (sub32 need 1) &&& (1#64 <<< 0) ≠ 0#64 ↔
    _ := and_bit_ne_zero (by decide)
  rw [BitVec.shiftLeft_zero, getLsbD_shiftAnd, sub32_of_le positive] at bit
  rw [← not_iff_not, not_not, ← ne_eq, sub32_of_le positive, bit]
  constructor
  · intro all i small
    have set := all i (by omega)
    rw [Nat.zero_add] at set
    exact (word_bit idx (by omega)).mp set
  · intro all i small
    rw [Nat.zero_add]
    exact (word_bit idx (by omega)).mpr (all i (by omega))

/-- What a lookahead has seen. -/
theorem lookahead_spec (arr : RteFbarray) (used : Bool) (idx count : ℕ) {left : ℕ}
    (positive : 0 < left) : match arr.lookahead used (List.range' idx count) left with
    | .found => left ≤ count * 64 ∧ ∀ k < left, arr.marked (idx * 64 + k) = used
    | .lost lookahead_idx need => idx ≤ lookahead_idx ∧ lookahead_idx < idx + count ∧
        (lookahead_idx - idx) * 64 < left ∧
        0 < need ∧ need ≤ 64 ∧ ¬ arr.Starts used lookahead_idx need
    | .ended => count * 64 < left := by
  induction count generalizing idx left with
  | zero =>
    rw [List.range'_zero, lookahead]
    omega
  | succ count ih =>
    have need_pos : 0 < min left MASK_ALIGN := lt_min positive (by decide)
    have need_le : min left MASK_ALIGN ≤ 64 := min_le_right ..
    have starts := starts_iff arr used idx need_pos need_le
    rw [List.range'_succ]
    simp only [lookahead]
    split_ifs with lost last
    · rw [starts] at lost
      exact ⟨le_rfl, by omega, by omega, need_pos, need_le, lost⟩
    · have whole : left ≤ 64 := by
        rw [MASK_ALIGN, MASK_SHIFT] at last
        omega
      have exact_need : min left MASK_ALIGN = left := min_eq_left whole
      rw [starts, not_not, exact_need] at lost
      exact ⟨by omega, lost⟩
    · have long : 64 < left := by
        rw [MASK_ALIGN, MASK_SHIFT] at last
        omega
      have full : min left MASK_ALIGN = 64 := min_eq_right long.le
      rw [starts, not_not, full] at lost
      rw [full]
      have rest := @ih (idx + 1) (left - 64) (by omega)
      revert rest
      cases arr.lookahead used (List.range' (idx + 1) count) (left - 64) with
      | found =>
        rintro ⟨room, all⟩
        refine ⟨by omega, fun k small => ?_⟩
        rcases Nat.lt_or_ge k 64 with before | beyond
        · exact lost k before
        · obtain ⟨i, rfl⟩ := Nat.exists_eq_add_of_le beyond
          have next := all i (by omega)
          rwa [show (idx + 1) * 64 + i = idx * 64 + (64 + i) by omega] at next
      | lost lookahead_idx need =>
        rintro ⟨later, inside, seen, needs⟩
        exact ⟨by omega, by omega, by omega, needs⟩
      | ended =>
        intro short
        dsimp only at short ⊢
        omega

section Words

variable {cur_msk : BitVec 64}

theorem clzInverted_le (cur_msk : BitVec 64) : clzInverted cur_msk ≤ 64 := by
  unfold clzInverted
  split_ifs with full
  · exact le_rfl
  · exact (getLsbD_below_top full).1.le

theorem getLsbD_of_clz (cur_msk : BitVec 64) {i : ℕ} (low : 64 - clzInverted cur_msk ≤ i)
    (bit : i < 64) : cur_msk.getLsbD i = true := by
  unfold clzInverted at low
  split_ifs at low with full
  · refine getLsbD_of_not bit ?_
    rw [full, BitVec.ofNat_eq_ofNat, BitVec.getLsbD_zero]
  · exact getLsbD_top i low bit

theorem clzInverted_ne_zero (last : cur_msk.getLsbD 63 = true) : clzInverted cur_msk ≠ 0 := by
  unfold clzInverted
  split_ifs with full
  · decide
  · intro none
    have clear := (getLsbD_below_top full).2
    rw [none, last] at clear
    contradiction

theorem ctz_run (positive : 0 < n) (found : shiftAnd cur_msk (sub32 n 1) ≠ 0) :
    ∀ k < n, cur_msk.getLsbD ((shiftAnd cur_msk (sub32 n 1)).ctz.toNat + k) = true := by
  have set : (shiftAnd cur_msk (sub32 n 1)).getLsbD (shiftAnd cur_msk (sub32 n 1)).ctz.toNat =
    true := (isLeast_ctz found).1
  rw [getLsbD_shiftAnd, sub32_of_le positive] at set
  rw [sub32_of_le positive]
  exact fun k small => set k (by omega)

/-- If the run is not in the word, fewer of its elements are at the end of the word. -/
theorem clzInverted_lt (positive : 0 < n)
    (missed : ¬ (n ≤ MASK_ALIGN ∧ shiftAnd cur_msk (sub32 n 1) ≠ 0)) : clzInverted cur_msk < n := by
  have whole := clzInverted_le cur_msk
  by_contra enough
  have fits : n ≤ 64 := by omega
  refine missed ⟨fits, ne_zero_of_getLsbD (i := 64 - n) ?_⟩
  rw [getLsbD_shiftAnd, sub32_of_le positive]
  exact fun j small => getLsbD_of_clz cur_msk (by omega) (by omega)

theorem nextNWord_sub {ignore_msk : BitVec 64} {i : ℕ}
    (set : (arr.nextNWord used idx ignore_msk).getLsbD i = true) :
    i < 64 ∧ arr.marked (idx * 64 + i) = used := by
  have bit := BitVec.lt_of_getLsbD set
  refine ⟨bit, (word_bit idx bit).mp ?_⟩
  simp only [nextNWord] at set
  generalize (if idx = MASK_LEN_TO_IDX arr.len then ignore_msk ||| arr.last_msk else ignore_msk) =
    ignore at set
  split_ifs at set
  · exact set
  · rw [BitVec.getLsbD_and, Bool.and_eq_true] at set
    exact set.1

end Words

section Loop

/-- What the loop returns. -/
structure FoundRun (arr : RteFbarray) (n : ℕ) (used : Bool) (idx : ℕ) (ignore_msk : BitVec 64)
    (r : ℕ) : Prop where
  run : ∀ k < n, arr.marked (r + k) = used
  inside : r + n ≤ arr.msk.n_masks * 64
  later : idx ≤ r / 64
  kept : r / 64 = idx → (arr.nextNWord used idx ignore_msk).getLsbD (r % 64) = true

theorem FoundRun.skip {ignore_msk ignore_msk' : BitVec 64} {idx' r : ℕ}
    (found : FoundRun arr n used idx' ignore_msk' r) (later : idx < idx') :
    FoundRun arr n used idx ignore_msk r where
  run := found.run
  inside := found.inside
  later := later.le.trans found.later
  kept same := absurd found.later (Nat.not_le.mpr (same ▸ later))

theorem foundRun_of_bit {ignore_msk : BitVec 64} {i : ℕ}
    (run : ∀ k < n, arr.marked (idx * 64 + i + k) = used)
    (inside : idx * 64 + i + n ≤ arr.msk.n_masks * 64)
    (set : (arr.nextNWord used idx ignore_msk).getLsbD i = true) :
    FoundRun arr n used idx ignore_msk (idx * 64 + i) := by
  have bit := BitVec.lt_of_getLsbD set
  have word : (idx * 64 + i) / 64 = idx := by omega
  have place : (idx * 64 + i) % 64 = i := by omega
  refine ⟨run, inside, word.ge, fun _ => ?_⟩
  rwa [place]

theorem nextNLoop_found (positive : 0 < n) (fuel : ℕ) {ignore_msk : BitVec 64} {r : ℕ}
    (returns : arr.nextNLoop wraps n used fuel idx ignore_msk = some r) :
    FoundRun arr n used idx ignore_msk r := by
  induction fuel generalizing idx ignore_msk with
  | zero =>
    rw [nextNLoop] at returns
    contradiction
  | succ fuel ih =>
    rw [nextNLoop] at returns
    split_ifs at returns with finished
    simp only at returns
    set cur_msk := arr.nextNWord used idx ignore_msk with cur
    have within : idx + 1 ≤ arr.msk.n_masks := Nat.not_le.mp finished
    have room : clzInverted cur_msk ≤ 64 := clzInverted_le cur_msk
    split_ifs at returns with here nothing
    · obtain ⟨fits, found⟩ := here
      obtain rfl := Option.some.inj returns
      have bits := ctz_run positive found
      rw [mask_get]
      have first := bits 0 positive
      have last := BitVec.lt_of_getLsbD (bits (n - 1) (by omega))
      rw [Nat.add_zero] at first
      refine foundRun_of_bit (fun k small => ?_) (by omega) first
      rw [Nat.add_assoc]
      exact (nextNWord_sub (bits k small)).2
    · exact (ih returns).skip (Nat.lt_succ_self idx)
    · have part := clzInverted_lt positive here
      rw [sub32_of_le part.le] at returns
      have ahead := lookahead_spec arr used (idx + 1) (arr.msk.n_masks - (idx + 1))
        (Nat.sub_pos_of_lt part)
      revert ahead returns
      cases arr.lookahead used (List.range' (idx + 1) (arr.msk.n_masks - (idx + 1)))
        (n - clzInverted cur_msk) with
      | found =>
        rintro ⟨⟩ ⟨enough, rest⟩
        have top : MASK_ALIGN = 64 := rfl
        rw [mask_get, top]
        -- The run starts with the last bits of the word, and the rest is at the start of the next words.
        refine foundRun_of_bit (fun k small => ?_) (by omega) (getLsbD_of_clz cur_msk le_rfl (by omega))
        rcases Nat.lt_or_ge k (clzInverted cur_msk) with before | beyond
        · rw [Nat.add_assoc]
          exact (nextNWord_sub (getLsbD_of_clz cur_msk (by omega) (by omega))).2
        · obtain ⟨i, rfl⟩ := Nat.exists_eq_add_of_le beyond
          have next := rest i (by omega)
          rwa [show (idx + 1) * 64 + i = idx * 64 + (64 - clzInverted cur_msk) +
            (clzInverted cur_msk + i) by omega] at next
      | lost lookahead_idx need =>
        rintro returns ⟨later, _⟩
        exact (ih returns).skip (by omega)
      | ended =>
        rintro returns _
        exact (ih returns).skip (Nat.lt_succ_self idx)

/-- The last bit of a word is looked at. -/
def KeepsLast (ignore_msk : BitVec 64) : Prop := ignore_msk = 0 ∨ ignore_msk.getLsbD 63 = true

theorem ignore_msk_last {k : ℕ} (low : k < 64) : (ignore_msk k).getLsbD 63 = true := by
  rw [ignore_msk, getLsbD_from, decide_eq_true (by omega : k ≤ 63)]
  rfl

theorem keepsLast_lost (wraps : Bool) {need : ℕ} (bound : need ≤ 64) :
    KeepsLast (~~~(shiftOne wraps need - 1#64)) := by
  rcases Nat.lt_or_eq_of_le bound with less | rfl
  · have shift : shiftOne wraps need = 1#64 <<< need := by
      unfold shiftOne
      split_ifs
      · rw [Nat.mod_eq_of_lt less]
      · rfl
    rw [shift]
    exact Or.inr (ignore_msk_last less)
  · cases wraps
    · exact Or.inl (by decide)
    · exact Or.inr (by decide)

theorem nextNWord_last {ignore_msk : BitVec 64} (before : idx < arr.len / 64)
    (keeps : KeepsLast ignore_msk) (wanted : arr.marked (idx * 64 + 63) = used) :
    (arr.nextNWord used idx ignore_msk).getLsbD 63 = true := by
  have set := (word_bit idx (by decide)).mpr wanted
  simp only [nextNWord, mask_idx, if_neg before.ne]
  split_ifs with zero
  · exact set
  · rw [BitVec.getLsbD_and, set, keeps.resolve_left zero]
    rfl

/-- A run of whole words that the search has not reached yet is found, or one that starts no later than in its
first word. -/
theorem nextNLoop_spareRun (positive : 0 < n) (masks : arr.msk.n_masks = (arr.len + 63) / 64) {a m : ℕ}
    (spare : SpareRun (fun p => arr.marked p = used) arr.len start n a m) (fuel : ℕ)
    {ignore_msk : BitVec 64} (ahead : idx ≤ a) (enough : arr.msk.n_masks ≤ idx + fuel)
    (keeps : KeepsLast ignore_msk) :
    ∃ r, arr.nextNLoop wraps n used fuel idx ignore_msk = some r ∧ r / 64 ≤ a := by
  obtain ⟨_, inside, room, full⟩ := spare
  induction fuel generalizing idx ignore_msk with
  | zero => omega
  | succ fuel ih =>
    rw [nextNLoop, if_neg (by omega)]
    simp only
    set cur_msk := arr.nextNWord used idx ignore_msk with cur
    have whole := clzInverted_le cur_msk
    split_ifs with here nothing
    · refine ⟨_, rfl, ?_⟩
      have first := BitVec.lt_of_getLsbD (ctz_run positive here.2 0 positive)
      rw [mask_get]
      omega
    · -- The last bit of the first word of the run is looked at, so that this word is not reached here.
      refine ih ?_ (by omega) (Or.inl rfl)
      refine Nat.lt_of_le_of_ne ahead fun first => ?_
      exact clzInverted_ne_zero (nextNWord_last (by omega) keeps (full _ (by omega) (by omega))) nothing
    · have part := clzInverted_lt positive here
      rw [sub32_of_le part.le]
      have seen := lookahead_spec arr used (idx + 1) (arr.msk.n_masks - (idx + 1))
        (Nat.sub_pos_of_lt part)
      revert seen
      cases arr.lookahead used (List.range' (idx + 1) (arr.msk.n_masks - (idx + 1)))
        (n - clzInverted cur_msk) with
      | found =>
        refine fun _ => ⟨_, rfl, ?_⟩
        rw [mask_get, show MASK_ALIGN = 64 from rfl]
        omega
      | lost lookahead_idx need =>
        rintro ⟨later, _, short, _, bound, differs⟩
        -- The word where the run is lost is none of the full ones, and the search has not come behind them.
        have outside : ¬ (a ≤ lookahead_idx ∧ lookahead_idx < a + m) := by
          rintro ⟨lower, upper⟩
          exact differs fun i small => full _ (by omega) (by omega)
        exact ih (by omega) (by omega) (keepsLast_lost wraps bound)
      | ended =>
        intro short
        dsimp only at short
        exact ih (by omega) (by omega) (Or.inl rfl)

end Loop

theorem Valid.find_next_n_finds (valid : arr.Valid) (inside : start < arr.len) (positive : 0 < n)
    (wraps used : Bool) :
    FindsRun (fun p => arr.marked p = used) arr.len start n (notFound used)
      (arr.find_next_n wraps start n used) := by
  have start_mod := mask_mod (valid.small inside)
  have last := ignore_msk_last (Nat.mod_lt start (by decide))
  have reached : ∀ a m, SpareRun (fun p => arr.marked p = used) arr.len start n a m → ∃ r,
      arr.nextNLoop wraps n used (arr.msk.n_masks - start / 64) (start / 64)
        (ignore_msk (start % 64)) = some r ∧
        r / 64 ≤ a := by
    intro a m spare
    have behind := spare.behind
    exact nextNLoop_spareRun positive valid.masks spare _ (by omega) (by omega) (Or.inr last)
  rw [find_next_n, mask_idx, start_mod]
  cases search : arr.nextNLoop wraps n used (arr.msk.n_masks - start / 64) (start / 64)
    (ignore_msk (start % 64)) with
  | some r =>
    have found := nextNLoop_found positive _ search
    refine ⟨found.run, valid.masks ▸ found.inside, fun before => ?_, fun a m spare => ?_⟩
    · rcases Nat.eq_or_lt_of_le found.later with same | later
      · -- On the first word the elements before `start` are ignored, unless it is the last one as well.
        have kept := found.kept same.symm
        simp only [nextNWord, mask_idx] at kept
        rw [if_neg (by omega : start / 64 ≠ arr.len / 64), if_neg (ne_zero_of_getLsbD last),
          BitVec.getLsbD_and, Bool.and_eq_true, ignore_msk, getLsbD_from, Bool.and_eq_true,
          decide_eq_true_eq] at kept
        have beyond := kept.2.1
        omega
      · omega
    · obtain ⟨r', returns, bound⟩ := reached a m spare
      rw [search] at returns
      obtain rfl := Option.some.inj returns
      exact bound
  | none =>
    refine ⟨rfl, fun a m spare => ?_⟩
    obtain ⟨r', returns, _⟩ := reached a m spare
    rw [search] at returns
    contradiction

end RteFbarray

end LinuxZero.Fbarray
