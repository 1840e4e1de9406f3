import LinuxZero.Lib.ByteMemory
import Mathlib.Order.Nat

/-! # C strings in byte memory

A copy of a string stores its bytes up to the terminator, wherever that is. When the string is known the copy is
one write, so that several copies and stores of numbers are several writes; those that do not overlap are all
read back.
-/

namespace LinuxZero.Memory

/-- The C string at the offset is this one. -/
def HoldsString (m : Memory) (off : ℕ) (s : List UInt8) : Prop :=
  m.read off (s.length + 1) = s ++ [0] ∧ 0 ∉ s

/-- `strcpy`: the bytes up to the terminator. -/
def strcpy (m : Memory) (dst : ℕ) (src : Memory) (off : ℕ) : Memory := fun i =>
  if dst ≤ i ∧ ∀ j < i - dst, src (off + j) ≠ 0 then src (off + (i - dst)) else m i

/-- `c_str()`: the characters of a string, with a terminator behind them. -/
def ofString (s : List UInt8) : Memory := fun i => (s[i]?).getD 0

/-- A signed number of four bytes. -/
def int32 (m : Memory) (off : ℕ) : Int32 := (UInt32.ofNat (ofLittleEndian (m.read off 4))).toInt32

def intBytes (value : Int32) : List UInt8 := littleEndian 4 value.toUInt32.toNat

/-- Several writes, each given by its offset and its bytes, in their order. -/
def writes (m : Memory) (stores : List (ℕ × List UInt8)) : Memory :=
  stores.foldl (fun m store => m.write store.1 store.2) m

/-- The writes do not overlap. -/
def Apart (stores : List (ℕ × List UInt8)) : Prop :=
  stores.Pairwise fun first second => first.1 + first.2.length ≤ second.1 ∨
    second.1 + second.2.length ≤ first.1

variable {m m' src : Memory} {off dst size : ℕ} {s : List UInt8}

@[simp] theorem length_intBytes (value : Int32) : (intBytes value).length = 4 := length_littleEndian ..

section Strings

theorem HoldsString.byte (holds : m.HoldsString off s) {i : ℕ} (bound : i < s.length) :
    m (off + i) = s[i] := by
  have same := getElem_read m off (s.length + 1) i (by rw [length_read]; omega)
  simp only [holds.1] at same
  rw [← same, List.getElem_append_left bound]

theorem HoldsString.terminator (holds : m.HoldsString off s) : m (off + s.length) = 0 := by
  have same := getElem_read m off (s.length + 1) s.length (by rw [length_read]; omega)
  simp only [holds.1] at same
  rw [← same, List.getElem_concat_length rfl]

theorem HoldsString.ne_zero (holds : m.HoldsString off s) {i : ℕ} (bound : i < s.length) :
    m (off + i) ≠ 0 := by
  rw [holds.byte bound]
  exact fun zero => holds.2 (zero ▸ List.getElem_mem bound)

/-- What a string function examines ends with the terminator. -/
theorem HoldsString.mem_cstring_iff (holds : m.HoldsString off s) {i : ℕ} :
    i ∈ m.cstring off ↔ off ≤ i ∧ i ≤ off + s.length := by
  constructor
  · rintro ⟨lower, unterminated⟩
    refine ⟨lower, ?_⟩
    by_contra beyond
    exact unterminated (off + s.length) (by omega) (by omega) holds.terminator
  · rintro ⟨lower, upper⟩
    refine ⟨lower, fun j above below => ?_⟩
    obtain ⟨k, rfl⟩ := Nat.exists_eq_add_of_le above
    exact holds.ne_zero (by omega)

/-- A string and its terminator are in a field exactly when the string is shorter than the field. -/
theorem HoldsString.fits_iff (holds : m.HoldsString off s) : (∀ i ∈ m.cstring off, i < off + size) ↔
    s.length < size := by
  constructor
  · intro fits
    have last := fits (off + s.length) (holds.mem_cstring_iff.mpr ⟨by omega, le_rfl⟩)
    omega
  · intro short i member
    have bounds := holds.mem_cstring_iff.mp member
    omega

/-- A copy of a known string is one write. -/
theorem strcpy_eq_write (holds : src.HoldsString off s) : m.strcpy dst src off =
    m.write dst (s ++ [0]) := by
  funext i
  rw [strcpy, write]
  by_cases lower : dst ≤ i
  · obtain ⟨k, rfl⟩ := Nat.exists_eq_add_of_le lower
    rw [if_pos lower, Nat.add_sub_cancel_left]
    rcases lt_trichotomy k s.length with inside | same | beyond
    · rw [if_pos ⟨lower, fun j below => holds.ne_zero (below.trans inside)⟩, holds.byte inside,
        List.getElem?_append_left inside, List.getElem?_eq_getElem inside, Option.getD_some]
    · subst same
      rw [if_pos ⟨lower, fun j below => holds.ne_zero below⟩, holds.terminator,
        List.getElem?_concat_length, Option.getD_some]
    · have outside : (s ++ [0])[k]? = none := by
        rw [List.getElem?_eq_none_iff, List.length_append, List.length_singleton]
        exact beyond
      rw [if_neg fun copied => copied.2 s.length beyond holds.terminator, outside, Option.getD_none]
  · rw [if_neg fun copied => lower copied.1, if_neg lower]

theorem ofString_holds (free : 0 ∉ s) : (ofString s).HoldsString 0 s := by
  refine ⟨List.ext_getElem (by simp) fun i bound bound' => ?_, free⟩
  rw [getElem_read, Nat.zero_add, ofString, List.getElem_append]
  rw [List.length_append, List.length_singleton] at bound'
  split
  · next inside => rw [List.getElem?_eq_getElem inside, Option.getD_some]
  · next beyond =>
    rw [List.getElem?_eq_none (by omega), Option.getD_none, List.getElem_singleton]

end Strings

theorem int32_of_read {value : Int32} (stored : m.read off 4 = intBytes value) : m.int32 off = value := by
  rw [int32, stored, intBytes, ofLittleEndian_littleEndian _ _ value.toUInt32.toNat_lt,
    UInt32.ofNat_toNat]
  exact value.toInt32_toUInt32

section Writes

theorem read_writes_disjoint (stores : List (ℕ × List UInt8)) (start len : ℕ)
    (disjoint : ∀ store ∈ stores, start + len ≤ store.1 ∨ store.1 + store.2.length ≤ start) :
    (m.writes stores).read start len = m.read start len := by
  induction stores generalizing m with
  | nil => rfl
  | cons store rest ih =>
    refine (ih fun other member => disjoint other (List.mem_cons_of_mem store member)).trans ?_
    exact m.read_write_disjoint _ _ _ _ (disjoint store List.mem_cons_self)

/-- Writes that do not overlap are all read back. -/
theorem read_writes {stores : List (ℕ × List UInt8)} (apart : Apart stores)
    {store : ℕ × List UInt8} (member : store ∈ stores) :
    (m.writes stores).read store.1 store.2.length = store.2 := by
  induction stores generalizing m with
  | nil => exact absurd member List.not_mem_nil
  | cons first rest ih =>
    obtain ⟨ahead, apart⟩ := List.pairwise_cons.mp apart
    rcases List.mem_cons.mp member with rfl | later
    · exact (read_writes_disjoint rest _ _ ahead).trans (m.read_write ..)
    · exact ih apart later

/-- A written string is there. -/
theorem holdsString_writes {stores : List (ℕ × List UInt8)} (apart : Apart stores)
    (member : (dst, s ++ [0]) ∈ stores) (free : 0 ∉ s) : (m.writes stores).HoldsString dst s := by
  have stored := read_writes (m := m) apart member
  rw [List.length_append] at stored
  exact ⟨stored, free⟩

/-- A written number is there. -/
theorem int32_writes {stores : List (ℕ × List UInt8)} {value : Int32} (apart : Apart stores)
    (member : (dst, intBytes value) ∈ stores) : (m.writes stores).int32 dst = value := by
  have stored := read_writes (m := m) apart member
  rw [length_intBytes] at stored
  exact int32_of_read stored

end Writes

end LinuxZero.Memory
