import Mathlib.Algebra.Group.Nat.Defs
import Mathlib.Data.List.Basic
import Mathlib.Data.Set.Basic
import Mathlib.Order.Basic

/-! # Byte memory behind a base pointer

Offsets are natural numbers counted from the base pointer, and the memory is total: bytes past the
end of the object exist, so that an access out of bounds has a meaning and confinement is a theorem
about offsets, never a silent truncation. Reads and writes are byte precise, multi-byte fields are
little endian, and the bytes a C string function looks at are described by the set of its offsets.
-/

namespace LinuxZero

/-- The bytes reachable from a base pointer. -/
abbrev Memory := ℕ → UInt8

namespace Memory

/-- The `len` bytes from `off` on. -/
def read (m : Memory) (off len : ℕ) : List UInt8 :=
  (List.range len).map fun i => m (off + i)

/-- Store consecutive bytes from `off` on. -/
def write (m : Memory) (off : ℕ) (bytes : List UInt8) : Memory := fun i =>
  if off ≤ i then (bytes[i - off]?).getD (m i) else m i

/-- `memmove`: the source is read in full before the first store, so the ranges may overlap. -/
def memmove (m : Memory) (dst src len : ℕ) : Memory :=
  m.write dst (m.read src len)

/-- A little-endian 16-bit field. -/
def le16 (m : Memory) (off : ℕ) : ℕ :=
  (m off).toNat + 256 * (m (off + 1)).toNat

/-- The four bytes of a little-endian 32-bit value. -/
def bytes32 (value : UInt32) : List UInt8 :=
  [value.toUInt8, (value >>> 8).toUInt8, (value >>> 16).toUInt8, (value >>> 24).toUInt8]

@[simp] theorem length_bytes32 (value : UInt32) : (bytes32 value).length = 4 := rfl

@[simp] theorem length_read (m : Memory) (off len : ℕ) : (m.read off len).length = len := by
  simp [read]

@[simp] theorem read_zero (m : Memory) (off : ℕ) : m.read off 0 = [] := rfl

theorem getElem_read (m : Memory) (off len i : ℕ) (bound : i < (m.read off len).length) :
    (m.read off len)[i] = m (off + i) := by
  simp [read]

/-- Two memories read the same bytes exactly when they agree at every offset of the range. -/
theorem read_eq_iff (m m' : Memory) (off len : ℕ) :
    m.read off len = m'.read off len ↔ ∀ i < len, m (off + i) = m' (off + i) := by
  simp [read, List.map_inj_left]

theorem read_add (m : Memory) (off first second : ℕ) :
    m.read off (first + second) = m.read off first ++ m.read (off + first) second := by
  simp [read, List.range_add, Function.comp_def, Nat.add_assoc]

theorem read_take (m : Memory) (off len n : ℕ) (bound : n ≤ len) :
    (m.read off len).take n = m.read off n := by
  obtain ⟨rest, rfl⟩ := Nat.exists_eq_add_of_le bound
  rw [read_add, List.take_left' (length_read ..)]

theorem read_drop (m : Memory) (off len n : ℕ) (bound : n ≤ len) :
    (m.read off len).drop n = m.read (off + n) (len - n) := by
  obtain ⟨rest, rfl⟩ := Nat.exists_eq_add_of_le bound
  rw [read_add, List.drop_left' (length_read ..), Nat.add_sub_cancel_left]

/-- A write leaves every byte outside its own range alone. -/
theorem write_outside (m : Memory) (off i : ℕ) (bytes : List UInt8)
    (outside : i < off ∨ off + bytes.length ≤ i) : m.write off bytes i = m i := by
  unfold write
  split
  · rw [List.getElem?_eq_none (by omega), Option.getD_none]
  · rfl

theorem write_inside (m : Memory) (off i : ℕ) (bytes : List UInt8) (bound : i < bytes.length) :
    m.write off bytes (off + i) = bytes[i] := by
  rw [write, if_pos (by omega), Nat.add_sub_cancel_left, List.getElem?_eq_getElem bound,
    Option.getD_some]

/-- Reading back a written range returns the written bytes. -/
@[simp] theorem read_write (m : Memory) (off : ℕ) (bytes : List UInt8) :
    (m.write off bytes).read off bytes.length = bytes := by
  apply List.ext_getElem (by simp)
  intro i _ bound
  rw [getElem_read, write_inside m off i bytes bound]

/-- A write is invisible to a read of a disjoint range. -/
theorem read_write_disjoint (m : Memory) (off from_ len : ℕ) (bytes : List UInt8)
    (disjoint : from_ + len ≤ off ∨ off + bytes.length ≤ from_) :
    (m.write off bytes).read from_ len = m.read from_ len := by
  apply (read_eq_iff ..).mpr
  intro i bound
  exact write_outside m off (from_ + i) bytes (by omega)

/-- Appending behind the first `len` bytes extends what is read there. -/
theorem read_write_append (m : Memory) (off len : ℕ) (bytes : List UInt8) :
    (m.write (off + len) bytes).read off (len + bytes.length) = m.read off len ++ bytes := by
  rw [read_add, read_write, read_write_disjoint _ _ _ _ _ (Or.inl le_rfl)]

theorem read_memmove (m : Memory) (dst src len : ℕ) :
    (m.memmove dst src len).read dst len = m.read src len := by
  have same := read_write m dst (m.read src len)
  rw [length_read] at same
  exact same

section Words

/-- The lowest bytes of a value, the lowest first. -/
def littleEndian : ℕ → ℕ → List UInt8
  | 0, _ => []
  | count + 1, value => UInt8.ofNat value :: littleEndian count (value / 256)

def ofLittleEndian : List UInt8 → ℕ
  | [] => 0
  | byte :: rest => byte.toNat + 256 * ofLittleEndian rest

/-- A pointer of eight bytes. -/
def word (m : Memory) (off : ℕ) : ℕ := ofLittleEndian (m.read off 8)

/-- Store a pointer. -/
def storeWord (m : Memory) (off value : ℕ) : Memory := m.write off (littleEndian 8 value)

/-- Store several pointers, each given by its offset and value, in their order. -/
def storeWords (m : Memory) (stores : List (ℕ × ℕ)) : Memory :=
  stores.foldl (fun m store => m.storeWord store.1 store.2) m

@[simp] theorem length_littleEndian (count value : ℕ) : (littleEndian count value).length = count := by
  induction count generalizing value with
  | zero => rfl
  | succ count ih => rw [littleEndian, List.length_cons, ih]

theorem ofLittleEndian_littleEndian (count value : ℕ) (fits : value < 256 ^ count) :
    ofLittleEndian (littleEndian count value) = value := by
  induction count generalizing value with
  | zero =>
    rw [Nat.pow_zero] at fits
    exact (Nat.lt_one_iff.mp fits).symm
  | succ count ih =>
    have rest : value / 256 < 256 ^ count := by
      rw [Nat.pow_succ] at fits
      exact Nat.div_lt_of_lt_mul (by omega)
    rw [littleEndian, ofLittleEndian, ih _ rest]
    simp only [UInt8.toNat_ofNat']
    omega

theorem littleEndian_zero (count : ℕ) : littleEndian count 0 = List.replicate count 0 := by
  induction count with
  | zero => rfl
  | succ count ih =>
    rw [littleEndian, ih, List.replicate_succ]
    rfl

/-- The lowest byte of a word comes first. -/
theorem word_mod (m : Memory) (off : ℕ) : m.word off % 256 = (m off).toNat := by
  have byte := (m off).toNat_lt
  rw [word, show 8 = 1 + 7 from rfl, read_add]
  simp only [read, List.range_one, List.map_cons, List.map_nil, List.cons_append, Nat.add_zero,
    ofLittleEndian]
  omega

/-- Storing null clears the bytes of the word. -/
theorem storeWord_zero (m : Memory) (off i : ℕ) (bound : i < 8) : m.storeWord off 0 (off + i) = 0 := by
  rw [storeWord, write_inside m off i _ (by rwa [length_littleEndian])]
  simp only [littleEndian_zero, List.getElem_replicate]

/-- A word depends on its eight bytes. -/
theorem word_congr (m m' : Memory) (off : ℕ) (same : ∀ i < 8, m (off + i) = m' (off + i)) :
    m.word off = m'.word off := by
  rw [word, (read_eq_iff ..).mpr same, word]

theorem word_storeWord (m : Memory) (off value : ℕ) (fits : value < 2 ^ 64) :
    (m.storeWord off value).word off = value := by
  have stored := m.read_write off (littleEndian 8 value)
  rw [length_littleEndian] at stored
  rw [word, storeWord, stored]
  exact ofLittleEndian_littleEndian 8 value (by omega)

theorem word_write_disjoint (m : Memory) (off p : ℕ) (bytes : List UInt8)
    (disjoint : p + 8 ≤ off ∨ off + bytes.length ≤ p) : (m.write off bytes).word p = m.word p := by
  rw [word, read_write_disjoint _ _ _ _ _ disjoint, word]

theorem word_storeWord_disjoint (m : Memory) (off p value : ℕ) (disjoint : p + 8 ≤ off ∨ off + 8 ≤ p) :
    (m.storeWord off value).word p = m.word p :=
  m.word_write_disjoint off p _ (by rwa [length_littleEndian])

theorem storeWords_append (m : Memory) (first second : List (ℕ × ℕ)) :
    m.storeWords (first ++ second) = (m.storeWords first).storeWords second :=
  List.foldl_append ..

/-- A word that is disjoint from all stores keeps its value. -/
theorem word_storeWords_disjoint (m : Memory) (stores : List (ℕ × ℕ)) (p : ℕ)
    (disjoint : ∀ store ∈ stores, p + 8 ≤ store.1 ∨ store.1 + 8 ≤ p) :
    (m.storeWords stores).word p = m.word p := by
  induction stores generalizing m with
  | nil => rfl
  | cons store rest ih =>
    refine (ih (m.storeWord store.1 store.2) fun other member => disjoint other
      (List.mem_cons_of_mem store member)).trans ?_
    exact m.word_storeWord_disjoint _ _ _ (disjoint store List.mem_cons_self)

/-- Stores that do not overlap are all read back. -/
theorem word_storeWords (m : Memory) (stores : List (ℕ × ℕ))
    (apart : stores.Pairwise fun first second => first.1 + 8 ≤ second.1 ∨ second.1 + 8 ≤ first.1)
    (fits : ∀ store ∈ stores, store.2 < 2 ^ 64) (store : ℕ × ℕ) (member : store ∈ stores) :
    (m.storeWords stores).word store.1 = store.2 := by
  induction stores generalizing m with
  | nil => exact absurd member List.not_mem_nil
  | cons first rest ih =>
    obtain ⟨ahead, apart⟩ := List.pairwise_cons.mp apart
    rcases List.mem_cons.mp member with rfl | later
    · have kept := word_storeWords_disjoint (m.storeWord store.1 store.2) rest store.1 ahead
      exact kept.trans (m.word_storeWord _ _ (fits store List.mem_cons_self))
    · exact ih _ apart (fun other member => fits other (List.mem_cons_of_mem first member)) later

end Words

/-- The offsets a C string function examines from `off` on: everything up to the terminator,
the terminator included. -/
def cstring (m : Memory) (off : ℕ) : Set ℕ :=
  {i | off ≤ i ∧ ∀ j, off ≤ j → j < i → m j ≠ 0}

theorem mem_cstring_self (m : Memory) (off : ℕ) : off ∈ m.cstring off :=
  ⟨le_rfl, fun _ lower upper => absurd upper (by omega)⟩

/-- A string read stays below `stop` exactly when a terminator lies there. -/
theorem cstring_below_iff (m : Memory) (off stop : ℕ) :
    (∀ i ∈ m.cstring off, i < stop) ↔ ∃ i, off ≤ i ∧ i < stop ∧ m i = 0 := by
  constructor
  · intro below
    have start := below off (m.mem_cstring_self off)
    by_contra noTerminator
    push Not at noTerminator
    have examined : stop ∈ m.cstring off :=
      ⟨start.le, fun j lower upper => noTerminator j lower upper⟩
    exact lt_irrefl stop (below stop examined)
  · rintro ⟨i, lower, upper, terminator⟩ k ⟨_, unterminated⟩
    by_contra beyond
    exact unterminated i lower (by omega) terminator

end Memory

end LinuxZero
