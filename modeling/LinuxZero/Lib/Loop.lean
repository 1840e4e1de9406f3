import Mathlib.Order.Basic
import Mathlib.Logic.Relation

/-! # Loops that may not terminate

A loop is its body: from a state it either goes round again or leaves with a result. Running it
with a bound on the iterations is computable; returning and diverging are the limits of that run.
The rules below settle both without unfolding the run: a variant proves that a loop returns, a
recurring set of states proves that it does not, and every fact that the body preserves holds in
each state the loop visits.
-/

namespace LinuxZero

/-- A loop body: another round (`inl`) or the value of the `return` inside it (`inr`). -/
abbrev Loop (σ ρ : Type*) := σ → σ ⊕ ρ

namespace Loop

variable {σ ρ : Type*} (body : Loop σ ρ)

/-- At most `fuel` rounds of the loop; `none` when it is still going. -/
def run : ℕ → σ → Option ρ
  | 0, _ => none
  | fuel + 1, s =>
    match body s with
    | .inl next => run fuel next
    | .inr result => some result

/-- The loop leaves with this result after finitely many rounds. -/
def Returns (s : σ) (result : ρ) : Prop := ∃ fuel, run body fuel s = some result

/-- The loop never leaves. -/
def Diverges (s : σ) : Prop := ∀ fuel, run body fuel s = none

/-- The states in which a further round starts. -/
def Visits : σ → σ → Prop := Relation.ReflTransGen fun s next => body s = .inl next

variable {body}

theorem returns_of_exit {s : σ} {result : ρ} (exit : body s = .inr result) :
    Returns body s result := ⟨1, by simp only [run, exit]⟩

theorem returns_iff_of_round {s next : σ} (round : body s = .inl next) (result : ρ) :
    Returns body s result ↔ Returns body next result := by
  constructor
  · rintro ⟨fuel, success⟩
    cases fuel with
    | zero => contradiction
    | succ fuel =>
      simp only [run, round] at success
      exact ⟨fuel, success⟩
  · rintro ⟨fuel, success⟩
    exact ⟨fuel + 1, by simp only [run, round, success]⟩

theorem returns_iff_of_exit {s : σ} {left : ρ} (exit : body s = .inr left) (result : ρ) :
    Returns body s result ↔ result = left := by
  constructor
  · rintro ⟨fuel, success⟩
    cases fuel with
    | zero => contradiction
    | succ fuel =>
      simp only [run, exit] at success
      exact (Option.some.inj success).symm
  · rintro rfl
    exact returns_of_exit exit

/-- A loop has at most one result. -/
theorem Returns.unique {s : σ} {first second : ρ} (left : Returns body s first)
    (right : Returns body s second) : first = second := by
  obtain ⟨fuel, success⟩ := left
  induction fuel generalizing s with
  | zero => contradiction
  | succ fuel ih =>
    cases round : body s with
    | inl next =>
      simp only [run, round] at success
      exact ih ((returns_iff_of_round round second).mp right) success
    | inr result =>
      simp only [run, round] at success
      exact (Option.some.inj success).symm.trans ((returns_iff_of_exit round second).mp right).symm

/-- A set of states that every round stays in admits no result. -/
theorem diverges_of_recurring (Recurring : σ → Prop)
    (again : ∀ s, Recurring s → ∃ next, body s = .inl next ∧ Recurring next)
    {s : σ} (start : Recurring s) : Diverges body s := by
  intro fuel
  induction fuel generalizing s with
  | zero => rfl
  | succ fuel ih =>
    obtain ⟨next, round, recurring⟩ := again s start
    simp only [run, round]
    exact ih recurring

/-- A round that changes nothing repeats for ever. -/
theorem diverges_of_idle {s : σ} (idle : body s = .inl s) : Diverges body s := by
  apply diverges_of_recurring (· = s) _ rfl
  rintro t rfl
  exact ⟨t, idle, rfl⟩

theorem Diverges.not_returns {s : σ} (diverges : Diverges body s) (result : ρ) :
    ¬ Returns body s result := by
  rintro ⟨fuel, success⟩
  rw [diverges fuel] at success
  contradiction

/-- A variant that every round decreases, kept by an invariant, makes the loop return. -/
theorem returns_of_variant (Inv : σ → Prop) (variant : σ → ℕ)
    (decreases : ∀ s next, Inv s → body s = .inl next → Inv next ∧ variant next < variant s)
    {s : σ} (start : Inv s) : ∃ result, Returns body s result := by
  induction measure : variant s using Nat.strongRecOn generalizing s with
  | ind n ih =>
    cases round : body s with
    | inl next =>
      obtain ⟨inv, less⟩ := decreases s next start round
      obtain ⟨result, returns⟩ := ih _ (measure ▸ less) inv rfl
      exact ⟨result, (returns_iff_of_round round result).mpr returns⟩
    | inr result => exact ⟨result, returns_of_exit round⟩

/-- What holds initially and is kept by every round holds in every visited state. -/
theorem Visits.invariant {Inv : σ → Prop}
    (keeps : ∀ s next, Inv s → body s = .inl next → Inv next)
    {s t : σ} (visits : Visits body s t) (start : Inv s) : Inv t := by
  induction visits with
  | refl => exact start
  | tail _ round ih => exact keeps _ _ ih round

theorem returns_iff_of_visits {s t : σ} (visits : Visits body s t) (result : ρ) :
    Returns body s result ↔ Returns body t result := by
  induction visits with
  | refl => rfl
  | tail _ round ih => exact ih.trans (returns_iff_of_round round result)

/-- A result comes from a visited state whose round leaves the loop. -/
theorem Returns.exists_exit {s : σ} {result : ρ} (returns : Returns body s result) :
    ∃ t, Visits body s t ∧ body t = .inr result := by
  obtain ⟨fuel, success⟩ := returns
  induction fuel generalizing s with
  | zero => contradiction
  | succ fuel ih =>
    cases round : body s with
    | inl next =>
      simp only [run, round] at success
      obtain ⟨t, visits, exit⟩ := ih success
      exact ⟨t, .head round visits, exit⟩
    | inr left =>
      simp only [run, round] at success
      exact ⟨s, .refl, Option.some.inj success ▸ round⟩

end Loop

end LinuxZero
