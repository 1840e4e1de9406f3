import Mathlib.Data.Nat.ModEq
import Mathlib.Data.List.Nodup
import Mathlib.Logic.Function.Basic

/-! # Queues in a ring of slots

The elements of a queue stand one after the other in a ring of slots, from the slot of a position on.
Positions are not reduced: only the slot of a position depends on the size of the ring. An array that is
assigned to in turn keeps the last value that each of its cells was given.
-/

namespace LinuxZero

variable {α ι : Type*}

/-- Assignments to the cells of an array, one after the other. -/
def assign [DecidableEq ι] (stores : List (ι × α)) (array : ι → α) : ι → α :=
  stores.foldl (fun array store => Function.update array store.1 store.2) array

section Assign

variable [DecidableEq ι] {stores : List (ι × α)} {array : ι → α} {i : ι}

theorem assign_of_notMem (other : ∀ store ∈ stores, store.1 ≠ i) : assign stores array i = array i := by
  induction stores generalizing array with
  | nil => rfl
  | cons store rest ih =>
    obtain ⟨first, later⟩ := List.forall_mem_cons.mp other
    exact (ih later).trans (Function.update_of_ne first.symm _ _)

/-- Cells that are assigned to once keep what they are given. -/
theorem assign_of_mem (apart : (stores.map Prod.fst).Nodup) {v : α} (member : (i, v) ∈ stores) :
    assign stores array i = v := by
  induction stores generalizing array with
  | nil => exact absurd member List.not_mem_nil
  | cons store rest ih =>
    obtain ⟨first, later⟩ := List.nodup_cons.mp apart
    rcases List.mem_cons.mp member with rfl | member
    · have other : ∀ store ∈ rest, store.1 ≠ i := fun store member same =>
        first (List.mem_map.mpr ⟨store, member, same⟩)
      exact (assign_of_notMem other).trans (Function.update_self _ _ _)
    · exact ih later member

end Assign

section Stored

variable {size head i j : ℕ} {ring : ℕ → α} {queued : List α}

/-- The queue stands in the slots from position `head` on. -/
def Stored (size : ℕ) (ring : ℕ → α) (head : ℕ) (queued : List α) : Prop :=
  ∀ k (bound : k < queued.length), ring ((head + k) % size) = queued[k]

/-- Positions less than a round apart have slots of their own. -/
theorem slot_inj (first : i < size) (second : j < size)
    (same : (head + i) % size = (head + j) % size) : i = j := by
  have equal := Nat.ModEq.add_left_cancel' head same
  rwa [Nat.ModEq, Nat.mod_eq_of_lt first, Nat.mod_eq_of_lt second] at equal

theorem stored_nil : Stored size ring head [] := fun _ bound => absurd bound (Nat.not_lt_zero _)

/-- Only the slot of the position matters. -/
theorem Stored.of_mod (stored : Stored size ring head queued) {head' : ℕ}
    (same : head % size = head' % size) :
    Stored size ring head' queued := fun k bound => by
  rw [← stored k bound, Nat.add_mod, ← same, ← Nat.add_mod]

/-- Taking elements out at the front moves the position. -/
theorem Stored.drop (stored : Stored size ring head queued)
    (n : ℕ) : Stored size ring (head + n) (queued.drop n) := by
  intro k bound
  rw [List.length_drop] at bound
  rw [List.getElem_drop, ← stored (n + k) (by omega), Nat.add_assoc]

/-- The assignments that put `n` values into the slots from position `start` on. -/
def slotStores (size start n : ℕ) (values : ℕ → α) : List (ℕ × α) :=
  (List.range n).map fun k => ((start + k) % size, values k)

theorem slotStores_of_mod {start start' : ℕ} (same : start % size = start' % size) (n : ℕ)
    (values : ℕ → α) :
    slotStores size start n values = slotStores size start' n values :=
  List.map_congr_left fun k _ => by rw [Nat.add_mod, same, ← Nat.add_mod]

theorem slotStores_nodup {start n : ℕ} (room : n ≤ size) (values : ℕ → α) :
    ((slotStores size start n values).map Prod.fst).Nodup := by
  rw [slotStores, List.map_map]
  refine List.Nodup.map_on (fun i first j second same => ?_) List.nodup_range
  rw [List.mem_range] at first second
  exact slot_inj (by omega) (by omega) same

/-- Putting values behind the last element appends them, as long as no round is completed. -/
theorem Stored.append (stored : Stored size ring head queued) {n : ℕ} (room : queued.length + n ≤ size)
    (values : ℕ → α) :
    Stored size (assign (slotStores size (head + queued.length) n values) ring) head
      (queued ++ (List.range n).map values) := by
  intro k bound
  rw [List.length_append, List.length_map, List.length_range] at bound
  rcases Nat.lt_or_ge k queued.length with old | new
  · rw [List.getElem_append_left old, ← stored k old]
    refine assign_of_notMem fun store member same => ?_
    obtain ⟨j, among, rfl⟩ := List.mem_map.mp member
    rw [List.mem_range] at among
    rw [Nat.add_assoc] at same
    have := slot_inj (by omega) (by omega) same
    omega
  · obtain ⟨j, rfl⟩ := Nat.exists_eq_add_of_le new
    rw [List.getElem_append_right new, List.getElem_map, List.getElem_range,
      Nat.add_sub_cancel_left, ← Nat.add_assoc]
    refine assign_of_mem (slotStores_nodup (by omega) values) ?_
    exact List.mem_map.mpr ⟨j, List.mem_range.mpr (by omega), rfl⟩

end Stored

end LinuxZero
