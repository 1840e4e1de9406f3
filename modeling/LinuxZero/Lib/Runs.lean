import Mathlib.Data.List.Basic
import Mathlib.Order.Nat

/-! # Runs between separators

The maximal runs of a list that have no separator in them, each given by the position at which it starts. What is
in front of the list decides whether a run starts at its first element, so that the runs of a list are those of
its tail, moved by one position, and possibly one at the front.
-/

namespace LinuxZero.Runs

variable {α : Type*} [DecidableEq α] (sep : α)

/-- A run starts here; `fresh` tells whether one may start at the front of the list. -/
def isStart (fresh : Bool) (s : List α) (i : ℕ) : Bool :=
  s[i]?.any (· ≠ sep) && if i = 0 then fresh else s[i - 1]? = some sep

/-- The starts of the runs, in increasing order. -/
def starts (fresh : Bool) (s : List α) : List ℕ := (List.range s.length).filter (isStart sep fresh s)

/-- The rest of the list up to the next separator. -/
def run (s : List α) (start : ℕ) : List α := (s.drop start).takeWhile (· ≠ sep)

theorem isStart_succ (fresh : Bool) (c : α) (s : List α) (i : ℕ) :
    isStart sep fresh (c :: s) (i + 1) = isStart sep (c = sep) s i := by
  rw [isStart, isStart, List.getElem?_cons_succ, Nat.add_sub_cancel, if_neg (Nat.succ_ne_zero i)]
  cases i with
  | zero => simp
  | succ i => rw [List.getElem?_cons_succ, if_neg (Nat.succ_ne_zero i), Nat.add_sub_cancel]

theorem starts_cons (fresh : Bool) (c : α) (s : List α) :
    starts sep fresh (c :: s) = (if fresh ∧ c ≠ sep then [0] else []) ++
    (starts sep (c = sep) s).map (· + 1) := by
  have later : (isStart sep fresh (c :: s) ∘ Nat.succ) = isStart sep (c = sep) s :=
    funext (isStart_succ sep fresh c s)
  rw [starts, List.length_cons, List.range_succ_eq_map, List.filter_cons, List.filter_map, later]
  have first : isStart sep fresh (c :: s) 0 = (fresh && c ≠ sep) := by simp [isStart, Bool.and_comm]
  rw [first]
  by_cases here : fresh = true ∧ c ≠ sep
  · rw [if_pos (by simpa using here), if_pos here]
    rfl
  · rw [if_neg (by simpa using here), if_neg here]
    rfl

theorem starts_cons_sep (fresh : Bool) (s : List α) : starts sep fresh (sep :: s) =
    (starts sep true s).map (· + 1) := by
  rw [starts_cons, if_neg fun here => here.2 rfl, decide_eq_true rfl, List.nil_append]

variable {sep}

theorem starts_cons_fresh {c : α} (other : c ≠ sep) (s : List α) :
    starts sep true (c :: s) = 0 :: (starts sep false s).map (· + 1) := by
  rw [starts_cons, if_pos ⟨rfl, other⟩, decide_eq_false other, List.singleton_append]

theorem starts_cons_inside {c : α} (other : c ≠ sep) (s : List α) :
    starts sep false (c :: s) = (starts sep false s).map (· + 1) := by
  rw [starts_cons, if_neg fun here => Bool.false_ne_true here.1, decide_eq_false other, List.nil_append]

end LinuxZero.Runs
