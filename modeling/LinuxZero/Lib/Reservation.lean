import Mathlib.Order.Nat
import Mathlib.Logic.Function.Basic

/-! # Reserved ranges

Workers reserve ranges of positions at the head of a sequence, one behind the other, and give them back at the tail
in the same order. Between the tail and the head each position belongs to exactly one worker, so that whoever holds
the first range can always give it back.
-/

namespace LinuxZero

variable {τ : Type*} {held : τ → Option (ℕ × ℕ)} {tail head : ℕ} {t u : τ} {r q : ℕ × ℕ}

/-- The ranges that the workers hold fill the positions from the tail up to the head. -/
structure Tiled (held : τ → Option (ℕ × ℕ)) (tail head : ℕ) : Prop where
  ordered : tail ≤ head
  inside : ∀ t r, held t = some r → tail ≤ r.1 ∧ r.1 < r.2 ∧ r.2 ≤ head
  apart : ∀ t u r q, t ≠ u → held t = some r → held u = some q → r.2 ≤ q.1 ∨ q.2 ≤ r.1
  covers : ∀ p, tail ≤ p → p < head → ∃ t r, held t = some r ∧ r.1 ≤ p ∧ p < r.2

namespace Tiled

theorem none (n : ℕ) : Tiled (fun _ : τ => Option.none) n n where
  ordered := le_rfl
  inside _ _ holds := nomatch holds
  apart _ _ _ _ _ holds := nomatch holds
  covers _ lower upper := absurd lower (Nat.not_le.mpr upper)

theorem congr {held' : τ → Option (ℕ × ℕ)} (tiled : Tiled held tail head) (same : ∀ t, held' t = held t) :
    Tiled held' tail head := by
  rwa [funext same]

/-- A position is held by one worker at most. -/
theorem eq_of_mem (tiled : Tiled held tail head) (holds : held t = some r)
    (holds' : held u = some q) {p : ℕ} (mem : r.1 ≤ p ∧ p < r.2)
    (mem' : q.1 ≤ p ∧ p < q.2) : t = u := by
  by_contra differ
  rcases tiled.apart t u r q differ holds holds' with before | after <;> omega

/-- The first range starts at the tail. -/
theorem exists_first (tiled : Tiled held tail head) (pending : tail < head) : ∃ t stop, held t =
    some (tail, stop) := by
  obtain ⟨t, ⟨start, stop⟩, holds, lower, _⟩ := tiled.covers tail le_rfl pending
  have inside := (tiled.inside t _ holds).1
  obtain rfl : start = tail := Nat.le_antisymm lower inside
  exact ⟨t, stop, holds⟩

/-- A worker alone holds everything. -/
theorem eq_of_alone (tiled : Tiled held tail head) (holds : held t = some r)
    (alone : ∀ u, u ≠ t → held u = Option.none) :
    r = (tail, head) := by
  have owner : ∀ p, tail ≤ p → p < head → r.1 ≤ p ∧ p < r.2 := by
    intro p lower upper
    obtain ⟨u, q, holds', mem⟩ := tiled.covers p lower upper
    by_cases same : u = t
    · rw [same, holds] at holds'
      obtain rfl := Option.some.inj holds'
      exact mem
    · rw [alone u same] at holds'
      contradiction
  obtain ⟨lower, nonempty, upper⟩ := tiled.inside t r holds
  have first := owner tail le_rfl (by omega)
  have last := owner (head - 1) (by omega) (by omega)
  exact Prod.ext (by omega) (by omega)

variable [DecidableEq τ]

/-- A worker without a range reserves one at the head. -/
theorem reserve (tiled : Tiled held tail head) (free : held t = Option.none) {n : ℕ} (positive : 0 < n) :
    Tiled (Function.update held t (some (head, head + n))) tail (head + n) := by
  have cases : ∀ u r, Function.update held t (some (head, head + n)) u = some r →
      u = t ∧ r = (head, head + n) ∨ u ≠ t ∧ held u = some r := by
    intro u r holds
    by_cases same : u = t
    · rw [same, Function.update_self] at holds
      exact Or.inl ⟨same, (Option.some.inj holds).symm⟩
    · rw [Function.update_of_ne same] at holds
      exact Or.inr ⟨same, holds⟩
  have ordered := tiled.ordered
  constructor
  case ordered => omega
  case inside =>
    intro u r holds
    rcases cases u r holds with ⟨_, rfl⟩ | ⟨_, old⟩
    · exact ⟨ordered, Nat.lt_add_of_pos_right positive, le_rfl⟩
    · obtain ⟨lower, nonempty, upper⟩ := tiled.inside u r old
      exact ⟨lower, nonempty, Nat.le_add_right_of_le upper⟩
  case apart =>
    intro u v r q differ holds holds'
    rcases cases u r holds with ⟨rfl, rfl⟩ | ⟨_, old⟩ <;> rcases cases v q holds' with
        ⟨rfl, rfl⟩ | ⟨_, old'⟩
    · exact absurd rfl differ
    · exact Or.inr (tiled.inside v q old').2.2
    · exact Or.inl (tiled.inside u r old).2.2
    · exact tiled.apart u v r q differ old old'
  case covers =>
    intro p lower upper
    rcases Nat.lt_or_ge p head with before | beyond
    · obtain ⟨u, r, holds, mem⟩ := tiled.covers p lower before
      have differ : u ≠ t := by
        rintro rfl
        rw [free] at holds
        contradiction
      exact ⟨u, r, (Function.update_of_ne differ ..).trans holds, mem⟩
    · exact ⟨t, _, Function.update_self .., beyond, upper⟩

/-- The worker with the first range gives it back. -/
theorem release (tiled : Tiled held tail head) {stop : ℕ} (holds : held t = some (tail, stop)) :
    Tiled (Function.update held t Option.none) stop head := by
  obtain ⟨_, nonempty, upper⟩ := tiled.inside t _ holds
  have old : ∀ u r, Function.update held t Option.none u = some r → u ≠ t ∧ held u = some r := by
    intro u r holds'
    have differ : u ≠ t := by
      rintro rfl
      rw [Function.update_self] at holds'
      contradiction
    rw [Function.update_of_ne differ] at holds'
    exact ⟨differ, holds'⟩
  constructor
  case ordered => exact upper
  case inside =>
    intro u r holds'
    obtain ⟨differ, before⟩ := old u r holds'
    obtain ⟨lower', nonempty', upper'⟩ := tiled.inside u r before
    rcases tiled.apart t u _ r differ.symm holds before with behind | ahead
    · exact ⟨behind, nonempty', upper'⟩
    · dsimp only at ahead nonempty
      omega
  case apart =>
    intro u v r q differ holds' holds''
    exact tiled.apart u v r q differ (old u r holds').2 (old v q holds'').2
  case covers =>
    intro p lower upper'
    obtain ⟨u, r, holds', mem⟩ := tiled.covers p (by dsimp only at nonempty; omega) upper'
    have differ : u ≠ t := by
      rintro rfl
      rw [holds] at holds'
      obtain rfl := Option.some.inj holds'
      dsimp only at mem
      omega
    exact ⟨u, r, (Function.update_of_ne differ ..).trans holds', mem⟩

end Tiled

end LinuxZero
