import Mathlib.Order.Bounds.Basic
import Mathlib.Data.Nat.Bitwise
import Mathlib.Data.Finset.Card
import Mathlib.Data.Finset.Range

/-! # Sets as masks

A set of positions is kept in words of `w` bits: position `p` is bit `p % w` of word `p / w`. Least members and runs
are found a word at a time, by counting zeros and by shifting a word against itself.
-/

namespace LinuxZero

variable {w : ℕ} {x : BitVec w} {i k n : ℕ}

section Words

/-- The bits below `k`. -/
theorem getLsbD_below (k i : ℕ) : ((1#w <<< k) - 1#w).getLsbD i = (decide (i < k) && decide (i < w)) := by
  by_cases inside : i < w
  swap
  · simp [inside, BitVec.getLsbD_of_ge _ _ (Nat.not_lt.mp inside)]
  have positive : 0 < w := Nat.zero_lt_of_lt inside
  have one : 1 % 2 ^ w = 1 := Nat.mod_eq_of_lt (Nat.one_lt_two_pow positive.ne')
  rcases Nat.lt_or_ge k w with fits | beyond
  · have small : 2 ^ k < 2 ^ w := Nat.pow_lt_pow_right Nat.one_lt_two fits
    have value : ((1#w <<< k) - 1#w).toNat = 2 ^ k - 1 := by
      rw [BitVec.toNat_sub_of_le, BitVec.toNat_shiftLeft, BitVec.toNat_ofNat, one,
        Nat.one_shiftLeft, Nat.mod_eq_of_lt small]
      rw [BitVec.le_def, BitVec.toNat_shiftLeft, BitVec.toNat_ofNat, one, Nat.one_shiftLeft,
        Nat.mod_eq_of_lt small]
      exact Nat.one_le_two_pow
    rw [BitVec.getLsbD, value, Nat.testBit_two_pow_sub_one]
    simp [inside]
  · -- Nothing is left of the one, and the difference has all bits.
    have vanishes : 1#w <<< k = 0#w := BitVec.shiftLeft_eq_zero beyond
    rw [vanishes, BitVec.zero_sub, BitVec.neg_one_eq_allOnes, BitVec.getLsbD_allOnes]
    simp [inside, inside.trans_le beyond]

theorem getLsbD_from (k i : ℕ) : (~~~((1#w <<< k) - 1#w)).getLsbD i =
    (decide (k ≤ i) && decide (i < w)) := by
  rw [BitVec.getLsbD_not, getLsbD_below]
  by_cases inside : i < w
  · by_cases low : i < k
    · simp [inside, low]
    · simp [inside, low, Nat.not_lt.mp low]
  · simp [inside]

theorem getLsbD_until (k i : ℕ) : (~~~(BitVec.allOnes w <<< k)).getLsbD i =
    (decide (i < k) && decide (i < w)) := by
  rw [BitVec.getLsbD_not, BitVec.getLsbD_shiftLeft, BitVec.getLsbD_allOnes]
  by_cases inside : i < w
  · by_cases low : i < k
    · simp [inside, low]
    · simp [inside, low]
      omega
  · simp [inside]

theorem exists_of_ne_zero (nonzero : x ≠ 0) : ∃ i, x.getLsbD i = true := by
  by_contra none
  refine nonzero (BitVec.eq_of_getLsbD_eq fun i _ => ?_)
  rw [BitVec.ofNat_eq_ofNat, BitVec.getLsbD_zero]
  exact Bool.eq_false_of_not_eq_true fun set => none ⟨i, set⟩

theorem ne_zero_of_getLsbD (set : x.getLsbD i = true) : x ≠ 0 := by
  rintro rfl
  rw [BitVec.ofNat_eq_ofNat, BitVec.getLsbD_zero] at set
  contradiction

/-- Counting the trailing zeros finds the first bit. -/
theorem isLeast_ctz (nonzero : x ≠ 0) : IsLeast {i | x.getLsbD i = true} x.ctz.toNat := by
  refine ⟨BitVec.getLsbD_true_ctz_of_ne_zero nonzero, fun i set => ?_⟩
  by_contra less
  have zero := BitVec.getLsbD_false_of_lt_ctz (Nat.not_le.mp less)
  rw [set] at zero
  contradiction

/-- Counting the leading zeros of the complement finds how many bits are set at the top. -/
theorem getLsbD_top (i : ℕ) (low : w - (~~~x).clz.toNat ≤ i) (inside : i < w) : x.getLsbD i = true := by
  obtain ⟨j, rfl⟩ := Nat.exists_eq_add_of_le low
  have zero : (~~~x).getLsbD (w - (~~~x).clz.toNat + j) = false := by
    refine BitVec.getLsbD_false_of_clzAuxRec (fun i beyond => ?_) j
    exact BitVec.getLsbD_of_ge _ _ (by omega)
  rw [BitVec.getLsbD_not, decide_eq_true inside, Bool.true_and] at zero
  exact (Bool.not_eq_false' _).mp zero

theorem getLsbD_below_top (full : ~~~x ≠ 0) : (~~~x).clz.toNat < w ∧
    x.getLsbD (w - 1 - (~~~x).clz.toNat) = false := by
  have positive : 0 < w := by
    obtain ⟨i, set⟩ := exists_of_ne_zero full
    exact Nat.zero_lt_of_lt (BitVec.lt_of_getLsbD set)
  have set := BitVec.getLsbD_true_clz_of_ne_zero positive full
  have less := BitVec.clz_lt_iff_ne_zero.mpr full
  rw [BitVec.natCast_eq_ofNat, BitVec.lt_def, BitVec.toNat_ofNat,
    Nat.mod_eq_of_lt Nat.lt_two_pow_self] at less
  rw [BitVec.getLsbD_not] at set
  exact ⟨less, (Bool.not_eq_true' _).mp (Bool.and_eq_true_iff.mp set).2⟩

/-- `k` times the word is shifted by one place and combined with itself. -/
def shiftAnd (x : BitVec w) : ℕ → BitVec w
  | 0 => x
  | k + 1 => shiftAnd (x &&& (x >>> 1)) k

/-- What is left are the places at which `k + 1` bits start. -/
theorem getLsbD_shiftAnd (x : BitVec w) (k i : ℕ) : (shiftAnd x k).getLsbD i = true ↔
    ∀ j ≤ k, x.getLsbD (i + j) = true := by
  induction k generalizing x with
  | zero =>
    rw [shiftAnd]
    constructor
    · intro set j isZero
      rwa [Nat.le_zero.mp isZero]
    · exact fun all => all 0 le_rfl
  | succ k ih =>
    rw [shiftAnd, ih]
    simp only [BitVec.getLsbD_and, BitVec.getLsbD_ushiftRight, Bool.and_eq_true]
    constructor
    · intro both j bound
      rcases Nat.lt_or_ge k j with last | before
      · have := (both k le_rfl).2
        rwa [show 1 + (i + k) = i + j by omega] at this
      · exact (both j before).1
    · intro all j bound
      refine ⟨all j (by omega), ?_⟩
      have := all (j + 1) (by omega)
      rwa [show i + (j + 1) = 1 + (i + j) by omega] at this

end Words

/-- Whether the position is a member. -/
def member (words : ℕ → BitVec w) (p : ℕ) : Bool := (words (p / w)).getLsbD (p % w)

section Members

variable {words : ℕ → BitVec w} {idx p q : ℕ}

theorem member_of_word (words : ℕ → BitVec w) (inside : i < w) : member words (idx * w + i) =
    (words idx).getLsbD i := by
  have positive : 0 < w := Nat.zero_lt_of_lt inside
  rw [member, Nat.mul_comm, Nat.mul_add_mod, Nat.mod_eq_of_lt inside, Nat.mul_add_div positive,
    Nat.div_eq_of_lt inside, Nat.add_zero]

theorem getLsbD_bit (inside : k < w) (i : ℕ) : (1#w <<< k).getLsbD i = decide (i = k) := by
  rw [BitVec.getLsbD_shiftLeft, BitVec.getLsbD_one]
  by_cases same : i = k
  · simp [same, inside, Nat.zero_lt_of_lt inside]
  · by_cases low : i < k <;> simp [same, low]
    omega

theorem and_bit_ne_zero (inside : k < w) : x &&& (1#w <<< k) ≠ 0#w ↔ x.getLsbD k = true := by
  constructor
  · intro nonzero
    obtain ⟨i, set⟩ := exists_of_ne_zero nonzero
    rw [BitVec.getLsbD_and, getLsbD_bit inside, Bool.and_eq_true, decide_eq_true_eq] at set
    exact set.2 ▸ set.1
  · intro set
    refine ne_zero_of_getLsbD (i := k) ?_
    rw [BitVec.getLsbD_and, getLsbD_bit inside, set, decide_eq_true rfl]
    rfl

/-- A word is replaced by one that differs in one bit only. -/
theorem member_update (words : ℕ → BitVec w) (p q : ℕ) (x : BitVec w)
    (others : ∀ i, i ≠ p % w → x.getLsbD i = (words (p / w)).getLsbD i) :
    member (Function.update words (p / w) x) q = if q = p then x.getLsbD (p % w) else member words q := by
  unfold member
  by_cases same : q = p
  · rw [if_pos same, same, Function.update_self]
  · rw [if_neg same]
    by_cases word : q / w = p / w
    · rw [word, Function.update_self]
      refine others _ fun bit => same ?_
      rw [← Nat.div_add_mod q w, word, bit, Nat.div_add_mod]
    · rw [Function.update_of_ne word]

/-- A bit of a word is set, and the other positions stay as they are. -/
theorem member_set (positive : 0 < w) (words : ℕ → BitVec w) (p q : ℕ) :
    member (Function.update words (p / w) (words (p / w) ||| 1#w <<< (p % w))) q =
    (decide (q = p) || member words q) := by
  have bit := fun i => getLsbD_bit (Nat.mod_lt p positive) i
  rw [member_update]
  · by_cases same : q = p <;> simp [same, bit]
  · intro i differ
    rw [BitVec.getLsbD_or, bit, decide_eq_false differ, Bool.or_false]

theorem member_clear (positive : 0 < w) (words : ℕ → BitVec w) (p q : ℕ) :
    member (Function.update words (p / w) (words (p / w) &&& ~~~(1#w <<< (p % w)))) q =
    (!decide (q = p) && member words q) := by
  have bit := fun i => getLsbD_bit (Nat.mod_lt p positive) i
  rw [member_update]
  · by_cases same : q = p <;> simp [same, bit]
  · intro i differ
    rw [BitVec.getLsbD_and, BitVec.getLsbD_not, bit, decide_eq_false differ, Bool.not_false,
      Bool.and_true]
    by_cases inside : i < w
    · rw [decide_eq_true inside, Bool.and_true]
    · rw [BitVec.getLsbD_of_ge _ _ (Nat.not_lt.mp inside), Bool.false_and]

end Members

/-- A search answers with the least position that has the property, or with nothing if there is none. -/
def IsFirst (P : ℕ → Prop) : Option ℕ → Prop
  | some r => IsLeast {p | P p} r
  | none => ∀ p, ¬ P p

theorem IsFirst.congr {P Q : ℕ → Prop} {answer : Option ℕ} (isFirst : IsFirst P answer)
    (same : ∀ p, P p ↔ Q p) :
    IsFirst Q answer := by
  rwa [← funext fun p => propext (same p)]

/-- The members in the words from `first` on: the first word that is not zero has the first of them. -/
theorem isFirst_findSome (positive : 0 < w) (words : ℕ → BitVec w) (first count : ℕ) :
    IsFirst (fun p => first ≤ p / w ∧ p / w < first + count ∧ member words p = true)
      ((List.range' first count).findSome? fun idx => if words idx = 0 then none
      else some (idx * w + (words idx).ctz.toNat)) := by
  induction count generalizing first with
  | zero =>
    rintro p ⟨lower, upper, _⟩
    exact absurd lower (Nat.not_le.mpr upper)
  | succ count ih =>
    rw [List.range'_succ, List.findSome?_cons]
    by_cases zero : words first = 0
    · rw [if_pos zero]
      refine (ih (first + 1)).congr fun p => ⟨fun ⟨lower, upper, set⟩ => ⟨by omega, by omega, set⟩,
        fun ⟨lower, upper, set⟩ => ⟨?_, by omega, set⟩⟩
      refine Nat.lt_of_le_of_ne lower fun same => ?_
      rw [member, ← same, zero, BitVec.ofNat_eq_ofNat, BitVec.getLsbD_zero] at set
      contradiction
    · rw [if_neg zero]
      obtain ⟨set, least⟩ := isLeast_ctz zero
      have inside := BitVec.lt_of_getLsbD set
      have word : (first * w + (words first).ctz.toNat) / w = first := by
        rw [Nat.mul_comm, Nat.mul_add_div positive, Nat.div_eq_of_lt inside, Nat.add_zero]
      refine ⟨⟨word.ge, by rw [word]; omega, (member_of_word words inside).trans set⟩, ?_⟩
      rintro p ⟨lower, _, set'⟩
      rcases Nat.eq_or_lt_of_le lower with same | later
      · rw [member, ← same] at set'
        have := least set'
        have split := Nat.div_add_mod p w
        rw [← same, Nat.mul_comm] at split
        omega
      · have beyond := (Nat.le_div_iff_mul_le positive).mp later
        rw [Nat.succ_mul] at beyond
        omega

end LinuxZero
