import Mathlib.Data.List.Nodup

/-! # Histories of writes

Values are written under keys one after the other, and the last one under a key counts. Writes under different
keys may change places.
-/

namespace LinuxZero.KeyHistory

variable {κ β : Type*} [DecidableEq κ] {history history' : List (κ × β)} {key other : κ} {value : β}

def lastValue (history : List (κ × β)) (key : κ) : Option β :=
  ((history.filter (·.1 = key)).getLast?).map Prod.snd

/-- The same values in the same order under every key. -/
def SameForEachKey (history history' : List (κ × β)) : Prop :=
  ∀ key, history.filter (·.1 = key) = history'.filter (·.1 = key)

theorem lastValue_append_self : lastValue (history ++ [(key, value)]) key = some value := by
  rw [lastValue, List.filter_append, List.filter_cons_of_pos (by simp), List.filter_nil,
    List.getLast?_concat, Option.map_some]

theorem lastValue_append_of_ne (differ : key ≠ other) :
    lastValue (history ++ [(other, value)]) key = lastValue history key := by
  rw [lastValue, List.filter_append, List.filter_cons_of_neg (by simpa using differ.symm),
    List.filter_nil, List.append_nil, lastValue]

/-- There is no value exactly when the key has not been written. -/
theorem lastValue_eq_none_iff : lastValue history key = none ↔ key ∉ history.map Prod.fst := by
  rw [lastValue, Option.map_eq_none_iff, List.getLast?_eq_none_iff, List.filter_eq_nil_iff, List.mem_map]
  simp only [decide_eq_true_eq, not_exists, not_and]

theorem SameForEachKey.lastValue_eq (same : SameForEachKey history history') (key : κ) :
    lastValue history key = lastValue history' key := by
  rw [lastValue, same key, lastValue]

theorem length_filter_le_one (nodup : (history.map Prod.fst).Nodup)
    (key : κ) : (history.filter (·.1 = key)).length ≤ 1 := by
  rw [← List.countP_eq_length_filter]
  have count := List.nodup_iff_count_le_one.mp nodup key
  rw [List.count, List.countP_map] at count
  refine Nat.le_trans (List.countP_mono_left fun pair _ holds => ?_) count
  simpa using holds

/-- At most one pair has the key when the keys are distinct. -/
theorem length_le_filter_ne (nodup : (history.map Prod.fst).Nodup) (key : κ) :
    history.length ≤ (history.filter (·.1 ≠ key)).length + 1 := by
  have total := List.length_eq_length_filter_add (l := history) (·.1 = key)
  have short := length_filter_le_one nodup key
  simp only [ne_eq, decide_not] at *
  omega

/-- Writes of distinct keys in another order, between what is common to both histories. -/
theorem sameForEachKey_of_perm (before after : List (κ × β)) (nodup : (history.map Prod.fst).Nodup)
    (perm : history.Perm history') :
    SameForEachKey (before ++ history ++ after) (before ++ history' ++ after) := by
  intro key
  have filtered := perm.filter (·.1 = key)
  have equal : history.filter (·.1 = key) = history'.filter (·.1 = key) := by
    cases found : history.filter (·.1 = key) with
    | nil => exact (List.nil_perm.mp (found ▸ filtered)).symm
    | cons pair rest =>
      obtain rfl : rest = [] := by
        have short := found ▸ length_filter_le_one nodup key
        rw [List.length_cons] at short
        exact List.eq_nil_of_length_eq_zero (by omega)
      exact (List.perm_singleton.mp (found ▸ filtered).symm).symm
  rw [List.filter_append, List.filter_append, List.filter_append, List.filter_append, equal]

end LinuxZero.KeyHistory
