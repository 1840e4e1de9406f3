import LinuxZero.Lib.ThreadSum

/-! # A word for readers and a writer

One number tells how a resource is held by `n` threads: -1 for a writer, and otherwise the number of readers. A
thread that sees no negative number may become a reader, and one that sees zero may become the writer.
-/

namespace LinuxZero

inductive Holding
  | nothing
  | reading
  | writing
deriving DecidableEq, Repr

variable {n t u : ℕ} {holding : ℕ → Holding} {word : ℤ}

/-- The word counts the readers, or stands for the one writer. -/
def HeldBy (n : ℕ) (holding : ℕ → Holding) (word : ℤ) : Prop :=
  countAt n holding .writing = 0 ∧ word = countAt n holding .reading ∨
    countAt n holding .writing = 1 ∧ countAt n holding .reading = 0 ∧ word = -1

namespace HeldBy

theorem free (n : ℕ) : HeldBy n (fun _ => .nothing) 0 := by
  have nobody : ∀ h, h ≠ Holding.nothing → countAt n (fun _ => Holding.nothing) h = 0 := by
    intro h differs
    rw [countAt_eq_sum]
    exact Finset.sum_eq_zero fun t _ => if_neg fun same => differs same.symm
  refine Or.inl ⟨nobody .writing (by decide), ?_⟩
  rw [nobody .reading (by decide)]
  rfl

theorem congr {holding' : ℕ → Holding} (held : HeldBy n holding word)
    (same : ∀ t, holding' t = holding t) :
    HeldBy n holding' word := by
  rwa [funext same]

theorem bounds (held : HeldBy n holding word) : -1 ≤ word ∧ word ≤ n := by
  have few : countAt n holding .reading ≤ n := countAt_le ..
  rcases held with ⟨_, word⟩ | ⟨_, _, word⟩ <;> omega

theorem read (held : HeldBy n holding word) (bound : t < n) (nothing : holding t = .nothing)
    (shared : 0 ≤ word) :
    HeldBy n (Function.update holding t .reading) (word + 1) := by
  have readers := countAt_moved holding bound .reading .reading
  have writers := countAt_moved holding bound .writing .reading
  simp only [nothing, reduceCtorEq, if_false, if_true, add_zero] at readers writers
  rcases held with ⟨nobody, counts⟩ | ⟨_, _, negative⟩
  · refine Or.inl ⟨writers.trans nobody, ?_⟩
    rw [readers, counts]
    rfl
  · omega

theorem write (held : HeldBy n holding word) (bound : t < n) (nothing : holding t = .nothing)
    (isFree : word = 0) :
    HeldBy n (Function.update holding t .writing) (-1) := by
  have readers := countAt_moved holding bound .reading .writing
  have writers := countAt_moved holding bound .writing .writing
  simp only [nothing, reduceCtorEq, if_false, if_true, add_zero] at readers writers
  rcases held with ⟨nobody, counts⟩ | ⟨_, _, negative⟩
  · refine Or.inr ⟨?_, ?_, rfl⟩ <;> omega
  · omega

/-- A writer is alone. -/
theorem alone (held : HeldBy n holding word) (bound : t < n) (writes : holding t = .writing)
    (below : u < n) (other : u ≠ t) :
    holding u = .nothing := by
  have holds : 0 < countAt n holding .writing := countAt_pos bound writes
  obtain ⟨one, none, _⟩ := held.resolve_left fun free => by omega
  cases place : holding u with
  | nothing => rfl
  | reading => exact absurd place (ne_of_countAt_zero none below)
  | writing => exact absurd (eq_of_countAt_one one below place bound writes) other

theorem stop_reading (held : HeldBy n holding word) (bound : t < n) (reads : holding t = .reading) :
    HeldBy n (Function.update holding t .nothing) (word - 1) := by
  have holds : 0 < countAt n holding .reading := countAt_pos bound reads
  have readers := countAt_moved holding bound .reading .nothing
  have writers := countAt_moved holding bound .writing .nothing
  simp only [reads, reduceCtorEq, if_false, if_true, add_zero] at readers writers
  rcases held with ⟨nobody, counts⟩ | ⟨_, none, _⟩
  · exact Or.inl ⟨writers.trans nobody, by omega⟩
  · omega

theorem stop_writing (held : HeldBy n holding word) (bound : t < n) (writes : holding t = .writing) :
    HeldBy n (Function.update holding t .nothing) 0 ∧ word = -1 := by
  have holds : 0 < countAt n holding .writing := countAt_pos bound writes
  have readers := countAt_moved holding bound .reading .nothing
  have writers := countAt_moved holding bound .writing .nothing
  simp only [writes, reduceCtorEq, if_false, if_true, add_zero] at readers writers
  rcases held with ⟨nobody, _⟩ | ⟨one, none, negative⟩
  · omega
  · exact ⟨Or.inl ⟨by omega, by omega⟩, negative⟩

end HeldBy

end LinuxZero
