import LinuxZero.Lib.LinkChain
import LinuxZero.Mem.MemPool
import Mathlib.Data.List.Pairwise

/-! # The layout of a page

A page is the region that `malloc` returned: the blocks, then the header. Every free block holds the
address of the next one in its first eight bytes. That works out as long as the blocks have eight bytes
and the size of the region does not overflow; otherwise the last link lands on the header or outside
the region.
-/

namespace LinuxZero.Mem

/-- A region of `malloc` and the number of blocks it was made for. -/
structure Page where
  base : ℕ
  count : ℕ
deriving DecidableEq, Repr

namespace Page

variable (b : ℕ) (page : Page)

/-- Where the header of the page stands, and its blocks end. -/
def header : ℕ := page.base + b * page.count

/-- The end of the region. -/
def stop : ℕ := page.base + b * page.count + sizeofMemPage

def blocks : List ℕ := (List.range page.count).map fun i => page.base + b * i

/-- The blocks have room for a link, and the sizes fit into an `int` and into memory. -/
structure Fits : Prop where
  room : 8 ≤ b
  count : 0 < page.count
  size : b * page.count + sizeofMemPage < 2 ^ 31
  base : 0 < page.base
  region : page.stop b ≤ 2 ^ 63

variable {b page}

theorem mem_blocks {p : ℕ} : p ∈ page.blocks b ↔ ∃ i < page.count, page.base + b * i = p := by
  simp [blocks]

theorem blocks_eq_cons (count : 0 < page.count) : ∃ rest, page.blocks b = page.base :: rest := by
  obtain ⟨more, shape⟩ : ∃ more, page.count = more + 1 := ⟨page.count - 1, by omega⟩
  rw [blocks, shape, List.range_succ_eq_map]
  exact ⟨_, rfl⟩

/-- A block lies between the base and the header. -/
theorem block_bounds {p : ℕ} (member : p ∈ page.blocks b) : page.base ≤ p ∧ p + b ≤ page.header b := by
  obtain ⟨i, bound, rfl⟩ := mem_blocks.mp member
  have last : b * (i + 1) ≤ b * page.count := Nat.mul_le_mul_left b bound
  rw [Nat.mul_add, Nat.mul_one] at last
  rw [header]
  omega

/-- Blocks do not overlap. -/
theorem blocks_apart : (page.blocks b).Pairwise fun p q => p + b ≤ q := by
  rw [blocks, List.pairwise_map]
  refine List.pairwise_lt_range.imp fun {i j} less => ?_
  have next : b * (i + 1) ≤ b * j := Nat.mul_le_mul_left b less
  rw [Nat.mul_add, Nat.mul_one] at next
  omega

/-- The pointers into a page that are blocks are known by their offsets. -/
theorem mem_blocks_iff_dvd {p : ℕ} (inside : page.base ≤ p ∧ p < page.header b) :
    p ∈ page.blocks b ↔ b ∣ p - page.base := by
  constructor
  · intro member
    obtain ⟨i, _, rfl⟩ := mem_blocks.mp member
    exact ⟨i, Nat.add_sub_cancel_left ..⟩
  · rintro ⟨i, offset⟩
    rw [header] at inside
    refine mem_blocks.mpr ⟨i, ?_, by omega⟩
    exact Nat.lt_of_mul_lt_mul_left (a := b) (by omega)

theorem apart_of_ne {p q : ℕ} (member : p ∈ page.blocks b) (member' : q ∈ page.blocks b) (ne : p ≠ q) :
    p + b ≤ q ∨ q + b ≤ p := by
  have symm : Std.Symm fun p q => p + b ≤ q ∨ q + b ≤ p := ⟨fun _ _ => Or.symm⟩
  have apart : (page.blocks b).Pairwise fun p q => p + b ≤ q ∨ q + b ≤ p := blocks_apart.imp Or.inl
  exact apart.forall member member' ne

theorem blocks_nodup (room : 0 < b) : (page.blocks b).Nodup :=
  blocks_apart.imp fun {p q} apart => by omega

end Page

theorem int32_eq {value : ℤ} (lower : -2 ^ 31 ≤ value) (upper : value < 2 ^ 31) :
    int32 value = value := by
  rw [int32, Int.bmod_eq_of_le] <;> omega

theorem int32_bounds (value : ℤ) : -2 ^ 31 ≤ int32 value ∧ int32 value < 2 ^ 31 := by
  have lower := @Int.le_bmod value (2 ^ 32) (by decide)
  have upper := @Int.bmod_lt value (2 ^ 32) (by decide)
  rw [int32]
  omega

theorem ptrAdd_eq {p offset : ℕ} (fits : p + offset < 2 ^ 64) : ptrAdd p offset = p + offset := by
  rw [ptrAdd, ← Int.natCast_add, Int.emod_eq_of_lt (by omega) (by omega), Int.toNat_natCast]

/-- The links of the blocks, the last of which is null. -/
theorem linkStores_eq (b p rounds : ℕ) (fits : p + b * rounds < 2 ^ 64) :
    linkStores b p rounds =
      (List.range (rounds + 1)).map fun i => (p + b * i, if i < rounds then p + b * (i + 1) else 0) := by
  induction rounds generalizing p with
  | zero => simp [linkStores]
  | succ rounds ih =>
    have further : p + b + b * rounds < 2 ^ 64 := by
      rw [Nat.mul_add, Nat.mul_one] at fits
      omega
    rw [linkStores, ptrAdd_eq (by omega), ih _ further, List.range_succ_eq_map (n := rounds + 1),
      List.map_cons, List.map_map]
    congr 1
    · simp
    · apply List.map_congr_left
      intro i _
      simp only [Function.comp_apply, Nat.succ_eq_add_one, Nat.add_lt_add_iff_right, Nat.mul_add,
        Nat.mul_one]
      refine Prod.ext (by dsimp only; omega) ?_
      dsimp only
      split_ifs
      · omega
      · rfl

/-- The header of a page. -/
def headerStores (page base : ℕ) : List (ℕ × ℕ) := [(page, base), (page + 8, page), (page + 16, 0)]

theorem word_headerStores (m : Memory) (page base : ℕ) (fits : base < 2 ^ 64) (fits' : page < 2 ^ 64) :
    (m.storeWords (headerStores page base)).word page = base := by
  refine m.word_storeWords (headerStores page base) ?_ ?_ (page, base) List.mem_cons_self
  · simp [headerStores]
  · simp only [headerStores, List.forall_mem_cons]
    exact ⟨fits, fits', by decide, fun store member => absurd member List.not_mem_nil⟩

/-- The stores of `malloc_mem_page`, whatever the sizes: the header, and the links up to the last. -/
theorem malloc_mem_page_eq (m : Memory) {base b n : ℕ} {offset : ℤ} (nonnull : 0 < base)
    (shift : int32 (b * n) = offset) (page : ptrAdd base offset < 2 ^ 64) (positive : 0 < n)
    (fits : base + b * (n - 1) < 2 ^ 64) :
    malloc_mem_page m base b n = (ptrAdd base offset, headerStores (ptrAdd base offset) base ++
      (List.range n).map fun i => (base + b * i, if i < n - 1 then base + b * (i + 1) else 0)) := by
  have rounds : ((n : ℤ) - 1).toNat = n - 1 := by omega
  have links := linkStores_eq b base (n - 1) fits
  rw [Nat.sub_add_cancel positive] at links
  have first := word_headerStores m (ptrAdd base offset) base (by omega) page
  rw [malloc_mem_page, if_neg (by omega)]
  dsimp only
  rw [shift, rounds]
  change (_, headerStores (ptrAdd base offset) base ++
    linkStores b ((m.storeWords (headerStores (ptrAdd base offset) base)).word (ptrAdd base offset))
      (n - 1)) = _
  rw [first, links]

/-- The list of free blocks that starts with `free_ptr`. -/
def FreeList (m : Memory) (free_ptr : ℕ) (free : List ℕ) : Prop := Linked m.word free_ptr free

namespace Page

variable (b : ℕ) (page : Page)

/-- What `malloc_mem_page` stores. -/
def stores : List (ℕ × ℕ) :=
  headerStores (page.header b) page.base ++
    (List.range page.count).map fun i =>
    (page.base + b * i, if i < page.count - 1 then page.base + b * (i + 1) else 0)

variable {b page}

theorem Fits.malloc_mem_page (fits : page.Fits b) (m : Memory) :
    malloc_mem_page m page.base b page.count = (page.header b, page.stores b) := by
  obtain ⟨_, count, size, base, region⟩ := fits
  rw [stop] at region
  simp only [sizeofMemPage] at size region
  have last : b * (page.count - 1) ≤ b * page.count := Nat.mul_le_mul_left b (Nat.sub_le ..)
  have product : ((b * page.count : ℕ) : ℤ) = b * page.count := Nat.cast_mul ..
  have shift : int32 (b * page.count) = ((b * page.count : ℕ) : ℤ) := by
    rw [product]
    exact int32_eq (by omega) (by omega)
  have header : ptrAdd page.base ((b * page.count : ℕ) : ℤ) = page.header b := ptrAdd_eq (by omega)
  rw [malloc_mem_page_eq m base shift (by rw [header, Page.header]; omega) count (by omega), header]
  rfl

theorem mem_stores {store : ℕ × ℕ} : store ∈ page.stores b ↔
    store = (page.header b, page.base) ∨ store = (page.header b + 8, page.header b) ∨
      store = (page.header b + 16, 0) ∨ ∃ i < page.count,
        (page.base + b * i, if i < page.count - 1 then page.base + b * (i + 1) else 0) = store := by
  simp [stores, headerStores]

theorem Fits.stores_apart (fits : page.Fits b) :
    (page.stores b).Pairwise fun first second => first.1 + 8 ≤ second.1 ∨ second.1 + 8 ≤ first.1 := by
  have room := fits.room
  refine List.pairwise_append.mpr ⟨?_, ?_, ?_⟩
  · simp [headerStores]
  · rw [List.pairwise_map]
    refine List.pairwise_lt_range.imp fun {i j} less => ?_
    have next : b * (i + 1) ≤ b * j := Nat.mul_le_mul_left b less
    rw [Nat.mul_add, Nat.mul_one] at next
    dsimp only
    omega
  · intro store member link member'
    obtain ⟨i, bound, rfl⟩ := List.mem_map.mp member'
    have last : b * (i + 1) ≤ b * page.count := Nat.mul_le_mul_left b (List.mem_range.mp bound)
    rw [Nat.mul_add, Nat.mul_one] at last
    simp only [headerStores, List.mem_cons, List.not_mem_nil, or_false] at member
    rcases member with rfl | rfl | rfl <;> simp only [header] <;> omega

/-- Every store stays inside the region. -/
theorem Fits.stores_inside (fits : page.Fits b) {store : ℕ × ℕ} (member : store ∈ page.stores b) :
    page.base ≤ store.1 ∧ store.1 + 8 ≤ page.stop b := by
  have room := fits.room
  rw [stop, sizeofMemPage]
  rcases mem_stores.mp member with rfl | rfl | rfl | ⟨i, bound, rfl⟩
  · simp only [header]
    omega
  · simp only [header]
    omega
  · simp only [header]
    omega
  · have last : b * (i + 1) ≤ b * page.count := Nat.mul_le_mul_left b bound
    rw [Nat.mul_add, Nat.mul_one] at last
    dsimp only
    omega

theorem Fits.word_stores (fits : page.Fits b) (m : Memory) (store : ℕ × ℕ)
    (member : store ∈ page.stores b) :
    (m.storeWords (page.stores b)).word store.1 = store.2 := by
  refine m.word_storeWords (page.stores b) fits.stores_apart ?_ store member
  have region := fits.region
  rw [stop] at region
  intro other member'
  rcases mem_stores.mp member' with rfl | rfl | rfl | ⟨i, bound, rfl⟩
  · dsimp only
    omega
  · simp only [header]
    omega
  · exact Nat.two_pow_pos 64
  · have last : b * (i + 1) ≤ b * page.count := Nat.mul_le_mul_left b bound
    dsimp only
    split_ifs <;> omega

/-- The header of the page holds what it was given. -/
structure HeaderHolds (b : ℕ) (page : Page) (m : Memory) : Prop where
  beg : m.word (page.header b) = page.base
  stop : m.word (page.header b + 8) = page.header b

theorem Fits.headerHolds (fits : page.Fits b) (m : Memory) :
    page.HeaderHolds b (m.storeWords (page.stores b)) where
  beg := fits.word_stores m (page.header b, page.base) (mem_stores.mpr (Or.inl rfl))
  stop := fits.word_stores m (page.header b + 8, page.header b) (mem_stores.mpr (Or.inr (Or.inl rfl)))

theorem Fits.next (fits : page.Fits b) (m : Memory) :
    (m.storeWords (page.stores b)).word (page.header b + 16) = 0 :=
  fits.word_stores m (page.header b + 16, 0) (mem_stores.mpr (Or.inr (Or.inr (Or.inl rfl))))

/-- The links of a new page lead through all its blocks. -/
theorem Fits.freeList (fits : page.Fits b) (m : Memory) :
    FreeList (m.storeWords (page.stores b)) page.base (page.blocks b) := by
  have nonnull : ∀ i, page.base + b * i ≠ 0 := fun i => by
    have base := fits.base
    omega
  refine Chain.of_range _ _ _ _ ?_ ?_ (fun i _ => nonnull i)
  · rw [Function.update_self, if_pos fits.count, Nat.mul_zero, Nat.add_zero]
  · intro i bound
    rw [Function.update_of_ne (nonnull i)]
    have stored := fits.word_stores m _ (mem_stores.mpr (Or.inr (Or.inr (Or.inr ⟨i, bound, rfl⟩))))
    refine stored.trans ?_
    dsimp only
    split_ifs <;> first | rfl | omega

end Page

end LinuxZero.Mem
