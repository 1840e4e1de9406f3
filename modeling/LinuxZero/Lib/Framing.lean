import Mathlib.Data.List.Basic
import Mathlib.Order.Basic

/-! # Cutting a stream of frames

A stream is a concatenation of frames and a tail. Any prefix of it consists of complete frames and
the beginning of one more, and the length of that beginning depends on the frame lengths and the
number of bytes alone. Nothing here knows how a frame announces its length.
-/

namespace LinuxZero.Framing

variable {α : Type*}

/-- How many of the first `n` bytes of the stream lie behind the last frame complete by then. -/
def leftover : List (List α) → ℕ → ℕ
  | [], n => n
  | frame :: rest, n => if frame.length ≤ n then leftover rest (n - frame.length) else n

/-- The next frame of the stream is not complete. -/
def Incomplete (todo : List (List α)) (bytes : List α) : Prop :=
  ∀ frame, todo.head? = some frame → bytes.length < frame.length

theorem leftover_flatten_add (done todo : List (List α)) (n : ℕ) :
    leftover (done ++ todo) (done.flatten.length + n) = leftover todo n := by
  induction done with
  | nil => simp
  | cons frame rest ih =>
    have fits : frame.length ≤ frame.length + rest.flatten.length + n := by omega
    have cut : frame.length + rest.flatten.length + n - frame.length = rest.flatten.length + n := by omega
    simp only [List.cons_append, leftover, List.flatten_cons, List.length_append, if_pos fits, cut, ih]

theorem leftover_of_incomplete {todo : List (List α)} {bytes : List α}
    (incomplete : Incomplete todo bytes) : leftover todo bytes.length = bytes.length := by
  cases todo with
  | nil => rfl
  | cons frame rest =>
    have short := incomplete frame rfl
    rw [leftover, if_neg (by omega)]

/-- A prefix of the stream is a run of complete frames and a proper beginning of the next one. -/
theorem exists_cut (todo : List (List α)) (tail bytes : List α)
    (stream : bytes <+: todo.flatten ++ tail) :
    ∃ now later rest, todo = now ++ later ∧ bytes = now.flatten ++ rest ∧ Incomplete later rest ∧
      rest <+: later.flatten ++ tail := by
  induction todo generalizing bytes with
  | nil => exact ⟨[], [], bytes, rfl, rfl, by simp [Incomplete], stream⟩
  | cons frame others ih =>
    by_cases complete : frame.length ≤ bytes.length
    · rw [List.flatten_cons, List.append_assoc] at stream
      obtain ⟨behind, rfl⟩ := List.prefix_of_prefix_length_le (List.prefix_append ..) stream complete
      obtain ⟨now, later, rest, rfl, rfl, incomplete, isPrefix⟩ :=
        ih behind ((List.prefix_append_right_inj frame).mp stream)
      exact ⟨frame :: now, later, rest, rfl, by simp, incomplete, isPrefix⟩
    · refine ⟨[], frame :: others, bytes, rfl, rfl, ?_, stream⟩
      intro next isNext
      obtain rfl : frame = next := Option.some.inj isNext
      omega

/-- A stream that has arrived whole and ends in an incomplete frame has no frame left. -/
theorem eq_nil_of_incomplete {todo : List (List α)} {tail bytes : List α}
    (incomplete : Incomplete todo bytes) (stream : bytes = todo.flatten ++ tail) : todo = [] := by
  cases todo with
  | nil => rfl
  | cons frame others =>
    have longer := incomplete frame rfl
    have lengths := congrArg List.length stream
    simp only [List.flatten_cons, List.length_append] at lengths
    omega

/-- The beginning of the stream behind its complete frames begins the next frame or the tail. -/
theorem incomplete_prefix {later : List (List α)} {tail rest : List α}
    (incomplete : Incomplete later rest) (isPrefix : rest <+: later.flatten ++ tail) :
    (∃ frame, later.head? = some frame ∧ rest <+: frame) ∨ later = [] ∧ rest <+: tail := by
  cases later with
  | nil => exact Or.inr ⟨rfl, isPrefix⟩
  | cons frame others =>
    left
    refine ⟨frame, rfl, ?_⟩
    rw [List.flatten_cons, List.append_assoc] at isPrefix
    exact List.prefix_of_prefix_length_le isPrefix (List.prefix_append ..)
      (Nat.le_of_lt (incomplete frame rfl))

end LinuxZero.Framing
