import LinuxZero.Mem.MemPage

/-! # When a new pool is usable

`create_mem_pool` accepts every positive size. With blocks below eight bytes the null link of the last
block reaches into the header behind it, and when the product of the sizes overflows, `malloc` is asked
for far less than the links are spread over. Every other pool that is created has an intact header, was
written inside its region only, and hands out disjoint blocks.
-/

namespace LinuxZero.Mem

/-- The blocks that consecutive calls of `malloc_mem_pool` return; the list has what `malloc` would return
in each. -/
def mallocs : List ℕ → Memory → MemPool → List ℕ
  | [], _, _ => []
  | ptr :: rest, m, pool =>
    let (block, m, pool) := malloc_mem_pool m pool ptr
    block :: mallocs rest m pool

/-- What a caller may expect of `create_mem_pool` when `malloc` has returned `ptr`. -/
structure PoolSound (m : Memory) (pool : MemPool) (ptr : ℕ)
    (block_size block_count auto_increment : ℤ) : Prop where
  /-- The header keeps `beg`, `end` and `next`. -/
  header : let page := (malloc_mem_page m ptr block_size block_count).1
    let after := (create_mem_pool m pool ptr block_size block_count auto_increment).2.1
    after.word page = ptr ∧ after.word (page + 8) = page ∧ after.word (page + 16) = 0
  /-- Every store stays inside the region. -/
  inside : ∀ store ∈ (malloc_mem_page m ptr block_size block_count).2,
    ptr ≤ store.1 ∧ (store.1 : ℤ) + 8 ≤ ptr + memPageSize block_size block_count
  /-- The next `block_count` calls return disjoint blocks between `beg` and `end`. -/
  blocks : ∀ regions : List ℕ, regions.length = block_count.toNat →
    let (_, after, pool) := create_mem_pool m pool ptr block_size block_count auto_increment
    let page := (malloc_mem_page m ptr block_size block_count).1
    (mallocs regions after pool).Pairwise
        (fun p q : ℕ => (p : ℤ) + block_size ≤ q ∨ (q : ℤ) + block_size ≤ p) ∧
      ∀ p ∈ mallocs regions after pool, ptr ≤ p ∧ (p : ℤ) + block_size ≤ page

/-- As long as there are free blocks, they are handed out in the order of their list. -/
theorem mallocs_eq {m : Memory} {pool : MemPool} {free : List ℕ} (list : FreeList m pool.free_ptr free)
    (regions : List ℕ) (enough : regions.length ≤ free.length) : mallocs regions m pool =
    free.take regions.length := by
  induction regions generalizing pool free with
  | nil => rfl
  | cons ptr rest ih =>
    cases free with
    | nil => exact absurd enough (by simp)
    | cons block free =>
      have first : pool.free_ptr = block := list.first_eq
      have nonnull : pool.free_ptr ≠ 0 := first ▸ Linked.nonnull list List.mem_cons_self
      have rest_list : FreeList m (takeBlock m pool).2.2.free_ptr free := by
        change FreeList m (m.word pool.free_ptr) free
        exact first ▸ list.tail
      have taken := ih rest_list (Nat.le_of_succ_le_succ enough)
      rw [mallocs, malloc_mem_pool, if_neg nonnull, List.length_cons, List.take_succ_cons,
        ← taken, ← first]
      rfl

theorem memPageSize_eq {b n : ℕ} (size : b * n + sizeofMemPage < 2 ^ 31) :
    memPageSize b n = (b * n + sizeofMemPage : ℕ) := by
  have product : ((b * n : ℕ) : ℤ) = b * n := Nat.cast_mul ..
  simp only [sizeofMemPage] at size
  have inner : int32 ((b * n : ℕ) : ℤ) = (b * n : ℕ) := int32_eq (by omega) (by omega)
  rw [memPageSize, ← product, inner, int32_eq, Nat.cast_add] <;> simp only [sizeofMemPage] <;> omega

namespace Page

variable {b : ℕ} {page : Page}

theorem Fits.create_mem_pool (fits : page.Fits b) (m : Memory) (pool : MemPool) (auto_increment : ℤ) :
    create_mem_pool m pool page.base b page.count auto_increment = (0, m.storeWords (page.stores b),
      { block_size := b, block_total := page.count, auto_increment := auto_increment,
        free_count := page.count, free_ptr := page.base, mm := page.header b }) := by
  have positive : ¬ ((b : ℤ) ≤ 0 ∨ (page.count : ℤ) ≤ 0) := by
    have room := fits.room
    have count := fits.count
    omega
  have nonnull : page.header b ≠ 0 := by
    have base := fits.base
    rw [header]
    omega
  rw [Mem.create_mem_pool, if_neg positive]
  dsimp only
  rw [fits.malloc_mem_page]
  dsimp only
  rw [if_neg nonnull, (fits.headerHolds m).beg]

/-- A pool whose sizes fit is sound, wherever `malloc` has put it. -/
theorem Fits.poolSound (fits : page.Fits b) (m : Memory) (pool : MemPool) (auto_increment : ℤ) :
    PoolSound m pool page.base b page.count auto_increment := by
  have created := fits.create_mem_pool m pool auto_increment
  refine ⟨?_, ?_, ?_⟩
  · rw [created, fits.malloc_mem_page]
    exact ⟨(fits.headerHolds m).beg, (fits.headerHolds m).stop, fits.next m⟩
  · rw [fits.malloc_mem_page, memPageSize_eq fits.size]
    intro store member
    obtain ⟨lower, upper⟩ := fits.stores_inside member
    rw [stop] at upper
    push_cast
    omega
  · intro regions length
    rw [created, fits.malloc_mem_page]
    dsimp only
    have enough : regions.length ≤ (page.blocks b).length := by simp [length, Page.blocks]
    rw [mallocs_eq (fits.freeList m) regions enough, length, Int.toNat_natCast,
      List.take_of_length_le (by simp [Page.blocks])]
    refine ⟨blocks_apart.imp fun {p q} apart => ?_, fun p member => ?_⟩
    · left
      exact_mod_cast apart
    · obtain ⟨lower, upper⟩ := block_bounds member
      exact ⟨lower, by exact_mod_cast upper⟩

end Page

section Necessity

variable {b n : ℕ}

/-- `malloc` was asked for less than the blocks take, or for all of it. -/
theorem request_cases (request : 0 ≤ memPageSize b n) :
    (int32 (b * n) + 2 ^ 32 ≤ (b * n : ℕ) ∧ -24 ≤ int32 (b * n) ∧ memPageSize b n = int32 (b * n) + 24) ∨
      (int32 (b * n) = (b * n : ℕ) ∧ b * n + sizeofMemPage < 2 ^ 31) := by
  have bounds := int32_bounds (b * n : ℤ)
  have total : memPageSize b n = int32 (int32 (b * n) + 24) := rfl
  have product : ((b * n : ℕ) : ℤ) = b * n := Nat.cast_mul ..
  obtain ⟨k, wrapped⟩ : ∃ k : ℤ, int32 (b * n) - (b * n : ℕ) = 2 ^ 32 * k := by
    rw [product]
    exact Int.dvd_bmod_sub_self
  have small : int32 (b * n) + 24 < 2 ^ 31 := by
    by_contra large
    have again : int32 (int32 (b * n) + 24) = int32 (b * n) + 24 - 2 ^ 32 :=
      (Int.bmod_eq_iff (by decide)).mpr ⟨by omega, by omega, ⟨-1, by omega⟩⟩
    omega
  have plain : memPageSize b n = int32 (b * n) + 24 := by
    rw [total]
    by_cases lower : -2 ^ 31 ≤ int32 (b * n) + 24
    · exact int32_eq lower small
    · omega
  rcases lt_trichotomy k 0 with less | rfl | more
  · exact Or.inl ⟨by omega, by omega, plain⟩
  · right
    rw [sizeofMemPage]
    omega
  · omega

/-- The loop ends with a null link in the last block, whatever it takes for the header. -/
theorem last_store (m : Memory) (base : ℕ) (nonnull : 0 < base) (low : base ≤ 4096)
    (size : b < 2 ^ 31 ∧ n < 2 ^ 31) (positive : 0 < n)
    (page : ptrAdd base (int32 (b * n)) < 2 ^ 64) :
    ∃ front, malloc_mem_page m base b n =
      (ptrAdd base (int32 (b * n)), headerStores (ptrAdd base (int32 (b * n))) base ++ front ++
      [(base + b * (n - 1), 0)]) := by
  have product : b * (n - 1) ≤ 2 ^ 31 * 2 ^ 31 := Nat.mul_le_mul (by omega) (by omega)
  obtain ⟨rounds, rfl⟩ : ∃ rounds, n = rounds + 1 := ⟨n - 1, by omega⟩
  have stores := malloc_mem_page_eq m nonnull rfl page positive (by omega)
  rw [List.range_succ, List.map_append, ← List.append_assoc] at stores
  exact ⟨_, by simpa using stores⟩

/-- With an overflow the last link is outside the region. -/
theorem overflow_unsound (size : b < 2 ^ 31 ∧ n < 2 ^ 31) (positive : 0 < n)
    (overflow : int32 (b * n) + 2 ^ 32 ≤ (b * n : ℕ)) (lower : -24 ≤ int32 (b * n))
    (total : memPageSize b n = int32 (b * n) + 24) (m : Memory) (pool : MemPool) (auto_increment : ℤ) :
    ¬ PoolSound m pool 4096 b n auto_increment := by
  intro sound
  have bounds := int32_bounds (b * n : ℤ)
  have page : ptrAdd 4096 (int32 (b * n)) < 2 ^ 64 := by
    rw [ptrAdd]
    omega
  obtain ⟨front, stores⟩ := last_store m 4096 (by decide) le_rfl size positive page
  have last := sound.inside (4096 + b * (n - 1), 0) (by rw [stores]; simp)
  obtain ⟨rounds, rfl⟩ : ∃ rounds, n = rounds + 1 := ⟨n - 1, by omega⟩
  simp only [Nat.add_sub_cancel, total] at last
  rw [Nat.mul_add, Nat.mul_one] at overflow
  push_cast at last overflow
  omega

/-- With blocks below eight bytes the last link clears the lowest byte of `beg`. -/
theorem small_block_unsound (small : b < 8) (block : 0 < b) (positive : 0 < n)
    (product : int32 (b * n) = (b * n : ℕ)) (fits : b * n + sizeofMemPage < 2 ^ 31) (m : Memory)
    (pool : MemPool) (auto_increment : ℤ) :
    ¬ PoolSound m pool 16 b n auto_increment := by
  intro sound
  have count : n ≤ b * n := Nat.le_mul_of_pos_left n block
  have header : ptrAdd 16 (int32 (b * n)) = 16 + b * n := by
    rw [product]
    exact ptrAdd_eq (by omega)
  obtain ⟨front, stores⟩ := last_store (b := b) (n := n) m 16 (by decide) (by decide) ⟨by omega, by omega⟩
    positive (by rw [header]; omega)
  rw [header] at stores
  have nonnull : (16 + b * n : ℕ) ≠ 0 := by omega
  have beg := sound.header.1
  have notNegative : ¬ ((b : ℤ) ≤ 0 ∨ (n : ℤ) ≤ 0) := by omega
  simp only [stores, create_mem_pool, if_neg notNegative, if_neg nonnull] at beg
  rw [Memory.storeWords_append] at beg
  obtain ⟨rounds, rfl⟩ : ∃ rounds, n = rounds + 1 := ⟨n - 1, by omega⟩
  rw [Nat.add_sub_cancel, Nat.mul_add, Nat.mul_one, ← Nat.add_assoc] at beg
  have cleared := Memory.storeWord_zero
    (m.storeWords (headerStores (16 + b * rounds + b) 16 ++ front)) (16 + b * rounds) b small
  have lowest := Memory.word_mod _ (16 + b * rounds + b) |>.symm.trans (congrArg (· % 256) beg)
  rw [Memory.storeWords, List.foldl_cons, List.foldl_nil, cleared] at lowest
  exact absurd lowest (by decide)

end Necessity

/-- `create_mem_pool` fails only without sizes or without a page. -/
theorem created_iff (m : Memory) (pool : MemPool) (ptr : ℕ) (block_size block_count auto_increment : ℤ) :
    (create_mem_pool m pool ptr block_size block_count auto_increment).1 = 0 ↔
      (0 < block_size ∧ 0 < block_count) ∧ (malloc_mem_page m ptr block_size block_count).1 ≠ 0 := by
  rw [create_mem_pool]
  dsimp only
  split_ifs with invalid null
  · exact iff_of_false (by simp) fun valid => by omega
  · exact iff_of_false (by simp) fun valid => valid.2 null
  · exact iff_of_true rfl ⟨by omega, null⟩

/-- Once `malloc` has returned a page, a pool is sound exactly when its blocks have room for a link and the
size of the page does not overflow; `malloc` has nothing to return for a size below zero. -/
theorem pool_sound_iff (block_size block_count auto_increment : ℤ)
    (size : 0 < block_size ∧ block_size < 2 ^ 31) (count : 0 < block_count ∧ block_count < 2 ^ 31) :
    (∀ (m : Memory) (pool : MemPool) (ptr : ℕ), MallocReturns (memPageSize block_size block_count) ptr →
      (create_mem_pool m pool ptr block_size block_count auto_increment).1 = 0 →
      PoolSound m pool ptr block_size block_count auto_increment) ↔
    memPageSize block_size block_count < 0 ∨
      8 ≤ block_size ∧ block_size * block_count + sizeofMemPage < 2 ^ 31 := by
  obtain ⟨b, rfl⟩ := Int.eq_ofNat_of_zero_le size.1.le
  obtain ⟨n, rfl⟩ := Int.eq_ofNat_of_zero_le count.1.le
  have limits : b < 2 ^ 31 ∧ n < 2 ^ 31 := by omega
  have positive : 0 < n := by omega
  have request := int32_bounds (int32 (b * n) + sizeofMemPage)
  rw [← memPageSize] at request
  constructor
  · intro sound
    by_contra other
    obtain ⟨nonnegative, unfit⟩ := not_or.mp other
    rcases request_cases (b := b) (n := n) (by omega) with ⟨overflow, lower, total⟩ | ⟨product, fits⟩
    · have page : ptrAdd 4096 (int32 (b * n)) < 2 ^ 64 ∧ ptrAdd 4096 (int32 (b * n)) ≠ 0 := by
        rw [ptrAdd]
        omega
      obtain ⟨front, stores⟩ := last_store (fun _ => 0) 4096 (by decide) le_rfl limits positive page.1
      refine overflow_unsound limits positive overflow lower total (fun _ => 0) ⟨0, 0, 0, 0, 0,
        0⟩ auto_increment ?_
      refine sound _ _ _ (Or.inr (by omega)) ((created_iff ..).mpr ⟨⟨size.1, count.1⟩, ?_⟩)
      simpa only [stores] using page.2
    · have product' : ((b * n : ℕ) : ℤ) = b * n := Nat.cast_mul ..
      have small : b < 8 := by
        by_contra large
        refine unfit ⟨by omega, ?_⟩
        rw [← product']
        exact_mod_cast fits
      have page : ptrAdd 16 (int32 (b * n)) = 16 + b * n := by
        rw [product]
        exact ptrAdd_eq (by omega)
      obtain ⟨front, stores⟩ := last_store (b := b) (n := n) (fun _ => 0) 16 (by decide)
        (by decide) limits positive
        (by rw [page]; omega)
      refine small_block_unsound small (by omega) positive product fits (fun _ => 0) ⟨0, 0, 0, 0, 0,
        0⟩ auto_increment ?_
      refine sound _ _ _ (Or.inr (by omega)) ((created_iff ..).mpr ⟨⟨size.1, count.1⟩, ?_⟩)
      rw [stores, page]
      simp
  · intro condition m pool ptr returned created
    have nonnull : ptr ≠ 0 := by
      rintro rfl
      exact ((created_iff ..).mp created).2 (by rw [malloc_mem_page, if_pos rfl])
    have region := returned.resolve_left nonnull
    obtain ⟨room, fits⟩ := condition.resolve_left (by omega)
    have fits' : b * n + sizeofMemPage < 2 ^ 31 := by exact_mod_cast fits
    have total := memPageSize_eq fits'
    have page : Page.Fits b ⟨ptr, n⟩ := by
      refine ⟨by omega, positive, fits', Nat.pos_of_ne_zero nonnull, ?_⟩
      rw [Page.stop]
      dsimp only
      omega
    exact page.poolSound m pool auto_increment

theorem pool_of_64_sound : PoolSound (fun _ => 0) ⟨0, 0, 0, 0, 0, 0⟩ 4096 64 10 5 :=
  (pool_sound_iff 64 10 5 (by decide) (by decide)).mpr (by decide) _ _ _ (by decide) (by decide +kernel)

/-- Ten blocks of an `int` each destroy the header; with 65536 blocks of 65536 bytes, `malloc` is asked for the
header only. -/
theorem pools_unsound :
    (MallocReturns (memPageSize 4 10) 16 ∧
      (create_mem_pool (fun _ => 0) ⟨0, 0, 0, 0, 0, 0⟩ 16 4 10 0).1 = 0 ∧
      ¬ PoolSound (fun _ => 0) ⟨0, 0, 0, 0, 0, 0⟩ 16 4 10 0) ∧
    memPageSize 65536 65536 = 24 ∧ ¬ PoolSound (fun _ => 0) ⟨0, 0, 0, 0, 0, 0⟩ 4096 65536 65536 0 := by
  refine ⟨⟨by decide, by decide +kernel, ?_⟩, by decide, ?_⟩
  · exact small_block_unsound (b := 4) (n := 10) (by decide) (by decide) (by decide) (by decide)
      (by decide) _ _ 0
  · exact overflow_unsound (b := 65536) (n := 65536) (by decide) (by decide) (by decide) (by decide)
      (by decide) _ _ 0

end LinuxZero.Mem
