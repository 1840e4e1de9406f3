import Mathlib.Data.List.Zip

/-! # Matching two streams of arrivals in order

Two parties arrive in any interleaving, and a matcher joins each newcomer with the front of the other
party's queue. Whatever the interleaving, the pairs are the two arrival orders zipped, and the queues
are what one order is ahead of the other.
-/

namespace LinuxZero

/-- The waiting arrivals of each party, and the pairs made so far. -/
structure Matching (α β : Type*) where
  left : List α := []
  right : List β := []
  pairs : List (α × β) := []

namespace Matching

variable {α β : Type*}

def swap (m : Matching α β) : Matching β α := ⟨m.right, m.left, m.pairs.map Prod.swap⟩

def arriveLeft (m : Matching α β) (a : α) : Matching α β :=
  match m.right with
  | [] => { m with left := m.left ++ [a] }
  | b :: rest => { m with right := rest, pairs := m.pairs ++ [(a, b)] }

/-- The matching that two arrival orders determine. -/
def ofArrivals (xs : List α) (ys : List β) : Matching α β :=
  ⟨xs.drop ys.length, ys.drop xs.length, xs.zip ys⟩

theorem swap_ofArrivals (xs : List α) (ys : List β) : (ofArrivals xs ys).swap = ofArrivals ys xs := by
  simp only [swap, ofArrivals, List.zip_swap]

/-- One arrival extends its order, whoever is ahead. -/
theorem arriveLeft_ofArrivals (xs : List α) (ys : List β) (a : α) :
    (ofArrivals xs ys).arriveLeft a = ofArrivals (xs ++ [a]) ys := by
  rcases Nat.lt_or_ge xs.length ys.length with behind | ahead
  · obtain ⟨first, rest, rfl, same⟩ : ∃ first rest, ys = first ++ rest ∧ first.length = xs.length :=
      ⟨ys.take xs.length, ys.drop xs.length, (List.take_append_drop ..).symm, by
        rw [List.length_take]
        omega⟩
    cases rest with
    | nil =>
      rw [List.append_nil] at behind
      omega
    | cons b rest =>
      have zipped : xs.zip (first ++ b :: rest) = xs.zip first := by
        have appended : (xs ++ []).zip (first ++ b :: rest) = xs.zip first ++ [].zip (b :: rest) :=
          List.zip_append same.symm
        simpa using appended
      simp only [arriveLeft, ofArrivals, ← same, List.drop_left, zipped]
      refine congr (congr (congrArg Matching.mk ?_) ?_) ?_
      · rw [List.drop_eq_nil_of_le (by simp [← same]), List.drop_eq_nil_of_le (by simp [← same])]
      · rw [List.length_append, List.length_singleton, ← same, List.drop_append]
        simp
      · rw [List.zip_append same.symm]
        rfl
  · have empty : ys.drop xs.length = [] := List.drop_eq_nil_of_le ahead
    have zipped : (xs ++ [a]).zip ys = xs.zip ys := by
      obtain ⟨first, rest, rfl, same⟩ : ∃ first rest, xs = first ++ rest ∧ first.length = ys.length :=
        ⟨xs.take ys.length, xs.drop ys.length, (List.take_append_drop ..).symm, by
          rw [List.length_take]
          omega⟩
      have plain : (first ++ rest).zip (ys ++ []) = first.zip ys ++ rest.zip [] := List.zip_append same
      have longer : (first ++ (rest ++ [a])).zip (ys ++ []) = first.zip ys ++ (rest ++ [a]).zip [] :=
        List.zip_append same
      simp only [List.append_nil, List.zip_nil_right] at plain longer
      rw [List.append_assoc, longer, plain]
    simp only [arriveLeft, ofArrivals, empty, zipped]
    refine congr (congr (congrArg Matching.mk ?_) ?_) rfl
    · rw [List.drop_append_of_le_length ahead]
    · rw [List.drop_eq_nil_of_le (by rw [List.length_append]; omega)]

/-- A newcomer of the party that is ahead waits. -/
theorem ofArrivals_append_of_nil (xs : List α) (ys : List β) (a : α)
    (nobody : (ofArrivals xs ys).right = []) :
    ofArrivals (xs ++ [a]) ys =
      ⟨(ofArrivals xs ys).left ++ [a], [], (ofArrivals xs ys).pairs⟩ := by
  rw [← arriveLeft_ofArrivals]
  simp only [arriveLeft, nobody]

/-- A newcomer of the party that is behind meets the front of the other queue. -/
theorem ofArrivals_append_of_cons (xs : List α) (ys : List β) (a : α) {b : β} {rest : List β}
    (front : (ofArrivals xs ys).right = b :: rest) :
    ofArrivals (xs ++ [a]) ys =
      ⟨(ofArrivals xs ys).left, rest, (ofArrivals xs ys).pairs ++ [(a, b)]⟩ := by
  rw [← arriveLeft_ofArrivals]
  simp only [arriveLeft, front]

/-- Never do both parties wait. -/
theorem left_or_right_nil (xs : List α) (ys : List β) :
    (ofArrivals xs ys).left = [] ∨ (ofArrivals xs ys).right = [] := by
  rcases Nat.le_total xs.length ys.length with behind | ahead
  · exact Or.inl (List.drop_eq_nil_of_le behind)
  · exact Or.inr (List.drop_eq_nil_of_le ahead)

/-- The pairs are made of the arrivals with the same number. -/
theorem mem_pairs_iff (xs : List α) (ys : List β) (a : α) (b : β) :
    (a, b) ∈ (ofArrivals xs ys).pairs ↔ ∃ k : ℕ, xs[k]? = some a ∧ ys[k]? = some b := by
  rw [ofArrivals, List.mem_iff_getElem?]
  simp only [List.getElem?_zip_eq_some]

theorem pairs_fst_sublist (xs : List α) (ys : List β) :
    ((ofArrivals xs ys).pairs.map Prod.fst).Sublist xs := by
  rw [ofArrivals, List.zip_eq_zip_take_min, List.map_fst_zip (by simp only [List.length_take]; omega)]
  exact List.take_sublist ..

theorem pairs_snd_sublist (xs : List α) (ys : List β) :
    ((ofArrivals xs ys).pairs.map Prod.snd).Sublist ys := by
  rw [ofArrivals, List.zip_eq_zip_take_min, List.map_snd_zip (by simp only [List.length_take]; omega)]
  exact List.take_sublist ..

/-- An arrival that the other party has not caught up with is in its queue. -/
theorem mem_left_of_ahead {xs : List α} {ys : List β} {k : ℕ} {a : α} (here : xs[k]? = some a)
    (ahead : ys.length ≤ k) : a ∈ (ofArrivals xs ys).left := by
  refine List.mem_iff_getElem?.mpr ⟨k - ys.length, ?_⟩
  rw [ofArrivals, List.getElem?_drop, Nat.add_sub_cancel' ahead, here]

theorem mem_right_of_ahead {xs : List α} {ys : List β} {k : ℕ} {b : β} (here : ys[k]? = some b)
    (ahead : xs.length ≤ k) : b ∈ (ofArrivals xs ys).right := mem_left_of_ahead here ahead

end Matching

end LinuxZero
