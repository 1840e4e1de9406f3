import Mathlib.Algebra.BigOperators.Group.Finset.Basic
import Mathlib.Algebra.BigOperators.Group.Finset.Piecewise
import Mathlib.Algebra.Order.BigOperators.Group.Finset

/-! # Sums over threads

Threads are numbers below `n`, each in a place of its own. A quantity that is a sum over the threads
changes by what the one thread contributes that moves.
-/

namespace LinuxZero

variable {α M : Type*} {n i : ℕ} {place : ℕ → α}

/-- Both sides of the move are added, so that nothing has to be subtracted. -/
theorem sum_moved [AddCommMonoid M] (f : α → M) (place : ℕ → α) (bound : i < n) (x : α) :
    ∑ v ∈ Finset.range n, f (Function.update place i x v) + f (place i) = ∑ v ∈ Finset.range n,
    f (place v) + f x := by
  have member := Finset.mem_range.mpr bound
  have others : ∑ v ∈ (Finset.range n).erase i, f (Function.update place i x v) =
      ∑ v ∈ (Finset.range n).erase i, f (place v) := by
    refine Finset.sum_congr rfl fun v distinct => ?_
    rw [Function.update_of_ne (Finset.ne_of_mem_erase distinct)]
  rw [← Finset.add_sum_erase _ _ member, ← Finset.add_sum_erase _ (fun v => f (place v)) member, others,
    Function.update_self]
  exact (add_comm _ _).trans ((add_assoc _ _ _).symm.trans (add_right_comm _ _ _))

/-- One thread gets closer to its end, and the others stay where they are. -/
theorem sum_closer (f : α → ℕ) {place' : ℕ → α} (bound : i < n) (others : ∀ v, v ≠ i → place' v = place v)
    (closer : f (place' i) < f (place i)) :
    ∑ v ∈ Finset.range n, f (place' v) < ∑ v ∈ Finset.range n, f (place v) := by
  refine Finset.sum_lt_sum (fun v _ => ?_) ⟨i, Finset.mem_range.mpr bound, closer⟩
  rcases eq_or_ne v i with rfl | differ
  · exact closer.le
  · rw [others v differ]

section Count

variable [DecidableEq α]

/-- The threads below `n` that are at `x`. -/
def countAt (n : ℕ) (place : ℕ → α) (x : α) : ℕ := ((Finset.range n).filter fun t => place t = x).card

theorem countAt_eq_sum (n : ℕ) (place : ℕ → α) (x : α) :
    countAt n place x = ∑ t ∈ Finset.range n, if place t = x then 1 else 0 := Finset.card_filter ..

/-- A thread moves from where it is to `y`. -/
theorem countAt_moved (place : ℕ → α) (bound : i < n) (x y : α) :
    countAt n (Function.update place i y) x + (if place i = x then 1 else 0) =
      countAt n place x + if y = x then 1 else 0 := by
  rw [countAt_eq_sum, countAt_eq_sum]
  exact sum_moved (fun z => if z = x then 1 else 0) place bound y

theorem countAt_le (n : ℕ) (place : ℕ → α) (x : α) : countAt n place x ≤ n :=
  (Finset.card_filter_le ..).trans_eq (Finset.card_range n)

/-- Not all threads are at `x`, since one of them is somewhere else. -/
theorem countAt_lt {x : α} (bound : i < n) (elsewhere : place i ≠ x) : countAt n place x < n := by
  have smaller : ((Finset.range n).filter fun t => place t = x) ⊂ Finset.range n := by
    refine Finset.filter_ssubset.mpr ⟨i, Finset.mem_range.mpr bound, elsewhere⟩
  exact (Finset.card_lt_card smaller).trans_eq (Finset.card_range n)

theorem countAt_pos {x : α} (bound : i < n) (here : place i = x) : 0 < countAt n place x :=
  Finset.card_pos.mpr ⟨i, Finset.mem_filter.mpr ⟨Finset.mem_range.mpr bound, here⟩⟩

theorem ne_of_countAt_zero {x : α} (nobody : countAt n place x = 0) (bound : i < n) : place i ≠ x :=
  fun here => (countAt_pos bound here).ne' nobody

/-- Two threads at `x` are the same when only one is there. -/
theorem eq_of_countAt_one {x : α} (one : countAt n place x = 1) {j : ℕ} (bound : i < n)
    (here : place i = x) (bound' : j < n) (here' : place j = x) : i = j := by
  refine Finset.card_le_one.mp one.le i ?_ j ?_
  · exact Finset.mem_filter.mpr ⟨Finset.mem_range.mpr bound, here⟩
  · exact Finset.mem_filter.mpr ⟨Finset.mem_range.mpr bound', here'⟩

end Count

end LinuxZero
