import Mathlib.Data.Int.Order.Basic
import Mathlib.Data.List.Destutter

/-! # Lists without repetitions next to each other

What is left of a list when an element that equals the one before it is left out, given what comes before the
list. Nothing is lost but copies of that first value, and in a sorted list every element is left once.
-/

namespace LinuxZero

variable {α : Type*} [DecidableEq α]

/-- The elements that differ from the one before; `prev` is before the first one. -/
def changes (prev : α) (l : List α) : List α := (l.destutter' (· ≠ ·) prev).tail

variable {prev a v : α} {l : List α}

theorem destutter'_eq_changes : l.destutter' (· ≠ ·) prev = prev :: changes prev l := by
  induction l generalizing prev with
  | nil => rfl
  | cons a l ih =>
    rw [changes, List.destutter'_cons]
    split
    · rfl
    · exact ih

theorem changes_cons : changes prev (a :: l) = if prev ≠ a then a :: changes a l else changes prev l := by
  rw [changes, List.destutter'_cons]
  split
  · rw [List.tail_cons, destutter'_eq_changes]
  · rfl

theorem changes_sublist : (changes prev l).Sublist l := by
  have sublist := List.destutter'_sublist (· ≠ ·) (a := prev) (l := l)
  rw [destutter'_eq_changes] at sublist
  exact List.cons_sublist_cons.mp sublist

/-- Only copies of the value before the list can be lost. -/
theorem mem_changes_iff (other : v ≠ prev) : v ∈ changes prev l ↔ v ∈ l := by
  refine ⟨fun member => changes_sublist.subset member, fun member => ?_⟩
  induction l generalizing prev with
  | nil => exact absurd member List.not_mem_nil
  | cons a l ih =>
    rw [changes_cons]
    split
    · next differ =>
      rcases eq_or_ne v a with rfl | apart
      · exact List.mem_cons_self
      · exact List.mem_cons_of_mem a (ih apart ((List.mem_cons.mp member).resolve_left apart))
    · next same =>
      rw [not_not.mp same] at other
      exact ih (not_not.mp same ▸ other) ((List.mem_cons.mp member).resolve_left other)

/-- A list that is sorted by an injective key is left strictly sorted. -/
theorem changes_sorted {key : α → ℤ} (injective : Function.Injective key)
    (sorted : (prev :: l).Pairwise fun a b => key a ≤ key b) :
    (prev :: changes prev l).Pairwise fun a b => key a < key b := by
  induction l generalizing prev with
  | nil => exact List.pairwise_singleton ..
  | cons a l ih =>
    obtain ⟨least, sorted⟩ := List.pairwise_cons.mp sorted
    rw [changes_cons]
    split
    · next differ =>
      have first : key prev < key a := lt_of_le_of_ne (least a List.mem_cons_self) fun same =>
        differ (injective same)
      have later := ih sorted
      refine List.pairwise_cons.mpr ⟨fun b member => ?_, later⟩
      rcases List.mem_cons.mp member with rfl | member
      · exact first
      · exact first.trans ((List.pairwise_cons.mp later).1 b member)
    · next same =>
      rw [not_not.mp same]
      exact ih sorted

end LinuxZero
