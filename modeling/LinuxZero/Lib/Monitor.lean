import Mathlib.Order.Basic
import Mathlib.Data.Set.Basic

/-! # Monitors

A mutex with an owner, and the threads that are inside of its critical sections. A section is entered when the
mutex is free, and only by leaving it the mutex becomes free again; what is said about the shared data inside
of a section is therefore not disturbed by the others.
-/

namespace LinuxZero

variable {T : Type*} {mutex : Option T} {Inside Inside' : T → Prop} {t u : T}

/-- The owner of the mutex is the one thread inside. -/
def Guarded (mutex : Option T) (Inside : T → Prop) : Prop := ∀ u, mutex = some u ↔ Inside u

namespace Guarded

theorem free (outside : ∀ u, ¬ Inside u) : Guarded none Inside :=
  fun u => ⟨by rintro ⟨⟩, fun inside => (outside u inside).elim⟩

theorem nobody (guarded : Guarded (none : Option T) Inside) (u : T) : ¬ Inside u := by
  intro inside
  cases (guarded u).mpr inside

theorem unique (guarded : Guarded mutex Inside) (first : Inside t) (second : Inside u) : t = u :=
  Option.some.inj (((guarded t).mpr first).symm.trans ((guarded u).mpr second))

theorem enter (guarded : Guarded none Inside) (inside : Inside' t)
    (others : ∀ u, u ≠ t → (Inside' u ↔ Inside u)) :
    Guarded (some t) Inside' := by
  intro u
  rcases eq_or_ne u t with rfl | differ
  · exact ⟨fun _ => inside, fun _ => rfl⟩
  · refine ⟨fun owner => absurd (Option.some.inj owner).symm differ, fun inside' => ?_⟩
    exact (guarded.nobody u ((others u differ).mp inside')).elim

theorem stay (guarded : Guarded mutex Inside) (same : Inside' t ↔ Inside t)
    (others : ∀ u, u ≠ t → (Inside' u ↔ Inside u)) :
    Guarded mutex Inside' := by
  intro u
  rcases eq_or_ne u t with rfl | differ
  · exact (guarded u).trans same.symm
  · exact (guarded u).trans (others u differ).symm

theorem leave (guarded : Guarded mutex Inside) (inside : Inside t) (outside : ¬ Inside' t)
    (others : ∀ u, u ≠ t → (Inside' u ↔ Inside u)) : Guarded none Inside' := by
  refine free fun u inside' => ?_
  rcases eq_or_ne u t with rfl | differ
  · exact outside inside'
  · exact differ (guarded.unique ((others u differ).mp inside') inside)

end Guarded

end LinuxZero
