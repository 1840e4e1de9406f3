import LinuxZero.Lib.Loop

/-! # Results with enough fuel

A function with loops is computed with a bound on their rounds. It computes a result when every bound that
is large enough gives it; then the function terminates, and the result is the only one. Functions that are
composed compute what their parts do.
-/

namespace LinuxZero

variable {σ ρ τ : Type*}

/-- With enough fuel the result is this one. -/
def Computes (f : ℕ → Option ρ) (result : ρ) : Prop := ∃ enough, ∀ fuel ≥ enough, f fuel = some result

namespace Computes

variable {f : ℕ → Option ρ} {result : ρ}

theorem unique {other : ρ} (computes : Computes f result) (computes' : Computes f other) :
    result = other := by
  obtain ⟨enough, success⟩ := computes
  obtain ⟨enough', success'⟩ := computes'
  have same := success (max enough enough') (Nat.le_max_left ..)
  exact Option.some.inj (same.symm.trans (success' _ (Nat.le_max_right ..)))

theorem congr {g : ℕ → Option ρ} (same : ∀ fuel, f fuel = g fuel) (computes : Computes g result) :
    Computes f result :=
  (funext same : f = g) ▸ computes

theorem pure (result : ρ) : Computes (fun _ => some result) result := ⟨0, fun _ _ => rfl⟩

theorem bind {g : ℕ → ρ → Option τ} {final : τ} (first : Computes f result)
    (second : Computes (fun fuel => g fuel result) final) :
    Computes (fun fuel => (f fuel).bind (g fuel)) final := by
  obtain ⟨enough, success⟩ := first
  obtain ⟨enough', success'⟩ := second
  refine ⟨max enough enough', fun fuel bound => ?_⟩
  change (f fuel).bind (g fuel) = _
  rw [success fuel (Nat.le_trans (Nat.le_max_left ..) bound)]
  exact success' fuel (Nat.le_trans (Nat.le_max_right ..) bound)

theorem map {g : ρ → τ} (computes : Computes f result) :
    Computes (fun fuel => (f fuel).map g) (g result) := by
  obtain ⟨enough, success⟩ := computes
  exact ⟨enough, fun fuel bound => congrArg (Option.map g) (success fuel bound)⟩

/-- One unit of fuel does not matter. -/
theorem of_succ (computes : Computes (fun fuel => f (fuel + 1)) result) : Computes f result := by
  obtain ⟨enough, success⟩ := computes
  refine ⟨enough + 1, fun fuel bound => ?_⟩
  obtain ⟨fuel, rfl⟩ : ∃ more, fuel = more + 1 := ⟨fuel - 1, by omega⟩
  exact success fuel (by omega)

theorem succ (computes : Computes f result) : Computes (fun fuel => f (fuel + 1)) result := by
  obtain ⟨enough, success⟩ := computes
  exact ⟨enough, fun fuel bound => success (fuel + 1) (Nat.le_succ_of_le bound)⟩

/-- With one unit of fuel more the function does what another one does. -/
theorem of_step {g : ℕ → Option ρ} (step : ∀ fuel, f (fuel + 1) = g fuel)
    (computes : Computes g result) : Computes f result :=
  of_succ ((funext step : (fun fuel => f (fuel + 1)) = g) ▸ computes)

/-- A loop that returns computes its result. -/
theorem of_returns {body : Loop σ ρ} {s : σ} (returns : Loop.Returns body s result) :
    Computes (fun fuel => Loop.run body fuel s) result := by
  obtain ⟨enough, success⟩ := returns
  refine ⟨enough, ?_⟩
  induction enough generalizing s with
  | zero => exact nomatch success
  | succ enough ih =>
    intro fuel bound
    obtain ⟨fuel, rfl⟩ : ∃ more, fuel = more + 1 := ⟨fuel - 1, by omega⟩
    cases round : body s with
    | inl next =>
      simp only [Loop.run, round] at success ⊢
      exact ih success fuel (by omega)
    | inr result =>
      simp only [Loop.run, round] at success ⊢
      exact success

end Computes

end LinuxZero
