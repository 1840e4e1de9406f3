import LinuxZero.Mem.MmPool

/-! # What the pool of one region loses

`mem_free` compares the block with `m_mem + m_free_count * m_block_size`, the end of the region when all
blocks are free. With fewer free blocks it turns away blocks that stand behind that end, and they never
come back. The list is wrong from the start: the null that ends it is stored behind the region.
-/

namespace LinuxZero.Mem

/-- The sizes are those of an `int`, and `malloc` has returned a region. -/
structure Page.Placed (b : ℕ) (page : Page) : Prop where
  room : 8 ≤ b
  size : b < 2 ^ 31
  positive : 0 < page.count
  count : page.count < 2 ^ 31
  nonnull : 0 < page.base
  base : page.base < 2 ^ 63

/-- Moreover the product of the sizes does not overflow, and the region has the size that `malloc` was
asked for. -/
structure Page.Obtained (b : ℕ) (page : Page) : Prop extends page.Placed b where
  small : b * page.count < 2 ^ 31
  region : MallocReturns (mem_create page.base page.count b).1 page.base

namespace MmState

section Runs

variable {page : Page} {b : ℕ} {s t : MmState} {free : List ℕ}

/-- The end of the blocks is an address. -/
theorem header_lt (placed : page.Placed b) : page.header b < 2 ^ 64 := by
  have product : b * page.count ≤ 2 ^ 31 * 2 ^ 31 := Nat.mul_le_mul placed.size.le placed.count.le
  have base := placed.base
  rw [Page.header]
  omega

/-- The free blocks are linked, as far as `m_free_count` goes, and the others are held. -/
structure Kept (page : Page) (b : ℕ) (s : MmState) (free : List ℕ) : Prop where
  block_size : s.mem.m_block_size = b
  free_count : s.mem.m_free_count = free.length
  block_count : s.mem.m_block_count = page.count
  base : s.mem.m_mem = page.base
  links : Leads s.m.word s.mem.m_free_ptr free
  partition : (free ++ s.held).Perm (page.blocks b)

/-- What `mem_create` stores: every block is linked to the next one, and the end of the region holds null. -/
theorem word_create (placed : page.Placed b) (m : Memory) {i : ℕ} (bound : i ≤ page.count) :
    (create m page.base page.count b).m.word (page.base + b * i) =
      if i < page.count then page.base + b * (i + 1) else 0 := by
  have room := placed.room
  have top := header_lt placed
  rw [Page.header] at top
  have stores := linkStores_eq b page.base page.count top
  have below : ∀ j ≤ page.count, b * j ≤ b * page.count := fun j => Nat.mul_le_mul_left b
  refine Memory.word_storeWords m _ ?_ ?_ (page.base + b * i,
    if i < page.count then page.base + b * (i + 1) else 0) ?_
  · change (linkStores b page.base page.count).Pairwise _
    rw [stores, List.pairwise_map]
    refine List.pairwise_lt_range.imp fun {i j} less => Or.inl ?_
    have next : b * (i + 1) ≤ b * j := Nat.mul_le_mul_left b less
    rw [Nat.mul_add, Nat.mul_one] at next
    dsimp only
    omega
  · change ∀ store ∈ linkStores b page.base page.count, _
    rw [stores]
    simp only [List.mem_map, List.mem_range, forall_exists_index, and_imp]
    rintro _ j _ rfl
    dsimp only
    split_ifs with more
    · have := below (j + 1) more
      omega
    · exact Nat.two_pow_pos 64
  · change _ ∈ linkStores b page.base page.count
    rw [stores]
    exact List.mem_map.mpr ⟨i, List.mem_range.mpr (by omega), rfl⟩

theorem kept_create (placed : page.Placed b) (m : Memory) :
    Kept page b (create m page.base page.count b) (page.blocks b) where
  block_size := rfl
  free_count := by simp [create, mem_create, Page.blocks]
  block_count := rfl
  base := rfl
  links := by
    refine Leads.of_range _ (fun i => page.base + b * i) page.count fun i bound => ?_
    rw [word_create placed m bound.le, if_pos bound]
  partition := by simp [create]

/-- Blocks that are free or held are blocks of the region, and apart. -/
theorem Kept.mem_blocks (kept : Kept page b s free) {p : ℕ} (member : p ∈ free ∨ p ∈ s.held) :
    p ∈ page.blocks b :=
  kept.partition.mem_iff.mp (List.mem_append.mpr member)

theorem Kept.length (kept : Kept page b s free) : free.length + s.held.length = page.count := by
  rw [← List.length_append, kept.partition.length_eq, Page.blocks, List.length_map, List.length_range]

theorem Kept.disjoint (placed : page.Placed b) (kept : Kept page b s free) {p q : ℕ} (freed : p ∈ free)
    (held : q ∈ s.held) : p ≠ q := by
  have room := placed.room
  have distinct := kept.partition.nodup_iff.mpr (Page.blocks_nodup (by omega))
  exact (List.nodup_append.mp distinct).2.2 p freed q held

theorem Kept.available (placed : page.Placed b) (kept : Kept page b s free) : s.Available := by
  have length := kept.length
  refine ⟨?_, ?_⟩
  · rw [kept.free_count, kept.block_count]
    omega
  · rw [kept.block_count, mem_alloc, kept.free_count]
    cases free with
    | nil =>
      intro _
      rw [← length, List.length_nil, Nat.zero_add]
    | cons q rest =>
      have nonzero : ((q :: rest).length : ℤ) ≠ 0 := by
        rw [List.length_cons]
        omega
      rw [if_neg nonzero]
      have first : s.mem.m_free_ptr = q := kept.links.1
      intro null
      have bounds := Page.block_bounds (kept.mem_blocks (Or.inl List.mem_cons_self))
      have base := placed.nonnull
      exact absurd (first ▸ null) (by omega)

theorem Kept.alloc (placed : page.Placed b) (kept : Kept page b s free) :
    Kept page b s.alloc free.tail := by
  have length := kept.length
  have count := placed.count
  cases free with
  | nil =>
    have empty : s.mem.m_free_count = 0 := kept.free_count
    have same : s.alloc = s := by simp [MmState.alloc, mem_alloc, empty]
    rw [same]
    exact kept
  | cons q rest =>
    have nonzero : s.mem.m_free_count ≠ 0 := by
      rw [kept.free_count, List.length_cons]
      omega
    have first : s.mem.m_free_ptr = q := kept.links.1
    have bounds := Page.block_bounds (kept.mem_blocks (Or.inl List.mem_cons_self))
    have base := placed.nonnull
    have nonnull : q ≠ 0 := by omega
    rw [List.length_cons] at length
    simp only [MmState.alloc, mem_alloc, if_neg nonzero, first, if_neg nonnull]
    refine ⟨kept.block_size, ?_, kept.block_count, kept.base, kept.links.2, ?_⟩
    · change int32 (s.mem.m_free_count - 1) = (rest.length : ℤ)
      rw [kept.free_count, List.length_cons, int32_eq] <;> omega
    · exact List.perm_middle.trans kept.partition

theorem Kept.give_back (placed : page.Placed b) (kept : Kept page b s free) {p : ℕ} (held : p ∈ s.held)
    (below : s.BelowFree (.free p)) : Kept page b (s.free p) (p :: free) := by
  have member := kept.mem_blocks (Or.inr held)
  have bounds := Page.block_bounds member
  have length := kept.length
  have count := placed.count
  have room := placed.room
  have top := header_lt placed
  have accepted : ¬ (p < s.mem.m_mem ∨
    ptrAdd s.mem.m_mem (int32 (s.mem.m_free_count * s.mem.m_block_size)) ≤ p) := by
    have less : (p : ℤ) - s.mem.m_mem < int32 (s.mem.m_free_count * s.mem.m_block_size) := below
    have small := (int32_bounds (s.mem.m_free_count * s.mem.m_block_size)).2
    have low := placed.base
    rw [kept.base] at less ⊢
    obtain ⟨offset, product⟩ :=
      Int.eq_ofNat_of_zero_le (show 0 ≤ int32 (s.mem.m_free_count * s.mem.m_block_size) by omega)
    rw [product] at less small ⊢
    rw [ptrAdd_eq (by omega)]
    omega
  have positive : 0 < s.held.length := List.length_pos_of_mem held
  simp only [MmState.free, mem_free, if_neg accepted]
  refine ⟨kept.block_size, ?_, kept.block_count, kept.base, ⟨rfl, ?_⟩, ?_⟩
  · change int32 (s.mem.m_free_count + 1) = ((p :: free).length : ℤ)
    rw [kept.free_count, List.length_cons, int32_eq] <;> omega
  · -- the link of the new first block, and the others as before
    change Leads (s.m.storeWord p s.mem.m_free_ptr).word ((s.m.storeWord p s.mem.m_free_ptr).word p) free
    cases free with
    | nil => trivial
    | cons q rest =>
      have first : s.mem.m_free_ptr = q := kept.links.1
      have bounds' := Page.block_bounds (kept.mem_blocks (Or.inl List.mem_cons_self))
      rw [Memory.word_storeWord _ _ _ (by omega)]
      refine kept.links.congr fun r freed => Memory.word_storeWord_disjoint _ _ _ _ ?_
      have apart := Page.apart_of_ne (kept.mem_blocks (Or.inl freed)) member
        (kept.disjoint placed freed held)
      omega
  · change (p :: free ++ s.held.erase p).Perm (page.blocks b)
    refine (List.perm_middle.symm.trans ?_).trans kept.partition
    exact List.Perm.append_left free (List.perm_cons_erase held).symm

theorem Kept.write (placed : page.Placed b) (kept : Kept page b s free) {off : ℕ} {bytes : List UInt8}
    (enabled : s.Enabled page b (.write off bytes)) : Kept page b (s.apply (.write off bytes)) free := by
  have room := placed.room
  refine { kept with links := kept.links.congr fun q freed => ?_ }
  have bounds := Page.block_bounds (kept.mem_blocks (Or.inl freed))
  refine Memory.word_write_disjoint _ _ _ _ ?_
  rcases enabled with ⟨block, held, lower, upper⟩ | outside
  · have apart := Page.apart_of_ne (kept.mem_blocks (Or.inl freed)) (kept.mem_blocks (Or.inr held))
      (kept.disjoint placed freed held)
    omega
  · omega

theorem Kept.step (placed : page.Placed b) {event : MmEvent} (kept : Kept page b s free)
    (step : BelowStep page b s event t) :
    ∃ free', Kept page b t free' := by
  obtain ⟨⟨enabled, rfl⟩, below⟩ := step
  cases event with
  | alloc => exact ⟨_, kept.alloc placed⟩
  | free p => exact ⟨_, kept.give_back placed enabled below⟩
  | write off bytes => exact ⟨_, kept.write placed enabled⟩

/-- A block that stands behind the free ones is lost when it is freed. -/
theorem Kept.loses (kept : Kept page b s free) (placed : page.Placed b)
    (small : b * page.count < 2 ^ 31) {p : ℕ} (held : p ∈ s.held)
    (above : ¬ s.BelowFree (.free p)) : ¬ (s.free p).Available := by
  have length := kept.length
  have few : free.length * b ≤ page.count * b := Nat.mul_le_mul_right b (by omega)
  have positive : 0 < s.held.length := List.length_pos_of_mem held
  rw [Nat.mul_comm b] at small
  have product : int32 (s.mem.m_free_count * s.mem.m_block_size) = (free.length * b : ℕ) := by
    rw [kept.free_count, kept.block_size, ← Int.natCast_mul, int32_eq] <;> omega
  have base := placed.base
  simp only [BelowFree, product, kept.base] at above
  have rejected : p < s.mem.m_mem ∨
    ptrAdd s.mem.m_mem (int32 (s.mem.m_free_count * s.mem.m_block_size)) ≤ p := by
    rw [product, kept.base, ptrAdd_eq (by omega)]
    omega
  rintro ⟨total, _⟩
  simp only [MmState.free, mem_free, if_pos rejected] at total
  rw [kept.free_count, kept.block_count, List.length_erase_of_mem held] at total
  omega

/-- The blocks take exactly the region that `malloc` was asked for. -/
theorem region_eq (obtained : page.Obtained b) :
    (page.base : ℤ) + (mem_create page.base page.count b).1 = page.header b := by
  have small := obtained.small
  have product : ((b * page.count : ℕ) : ℤ) = page.count * b := by rw [Nat.cast_mul, Int.mul_comm]
  rw [mem_create, Page.header, ← product, int32_eq (by omega) (by omega), Nat.cast_add]

/-- As long as every block that is freed stands below the end of as many blocks as there are free ones, no block
is lost; the first one that does not is. The blocks handed out lie in the region. -/
theorem blocks_available (obtained : page.Obtained b) (m : Memory) {events : List MmEvent}
    (run : Run (BelowStep page b) (create m page.base page.count b) events s) :
    s.Available ∧ ∀ p ∈ s.held, ((s.free p).Available ↔ s.BelowFree (.free p)) ∧
      page.base ≤ p ∧ (p : ℤ) + b ≤ page.base + (mem_create page.base page.count b).1 := by
  have placed := obtained.toPlaced
  obtain ⟨free, kept⟩ : ∃ free, Kept page b s free := by
    refine run.invariant (fun s => ∃ free, Kept page b s free) ?_ ⟨_, kept_create placed m⟩
    rintro s event t ⟨free, kept⟩ step
    exact kept.step placed step
  refine ⟨kept.available placed, fun p held => ⟨⟨?_, ?_⟩, ?_⟩⟩
  · intro available
    by_contra above
    exact kept.loses placed obtained.small held above available
  · exact fun below => (kept.give_back placed held below).available placed
  · obtain ⟨lower, upper⟩ := Page.block_bounds (kept.mem_blocks (Or.inr held))
    rw [region_eq obtained]
    exact ⟨lower, by omega⟩

/-- Without overflow, the condition compares the position of the block with the number of free ones. -/
theorem Kept.belowFree_iff (kept : Kept page b s free) (placed : page.Placed b)
    (small : b * page.count < 2 ^ 31) {i : ℕ} :
    s.BelowFree (.free (page.base + b * i)) ↔ i < free.length := by
  have length := kept.length
  have room := placed.room
  have few : b * free.length ≤ b * page.count := Nat.mul_le_mul_left b (by omega)
  have product : int32 (s.mem.m_free_count * s.mem.m_block_size) = (b * free.length : ℕ) := by
    rw [kept.free_count, kept.block_size, ← Int.natCast_mul, Nat.mul_comm, int32_eq] <;> omega
  simp only [BelowFree, product, kept.base]
  rw [← Nat.mul_lt_mul_left (a := b) (by omega)]
  omega

/-- All links that the pool has stored are inside the region. -/
def StoresInside (page : Page) (b : ℕ) (s : MmState) : Prop :=
  ∀ p ∈ s.stores, page.base ≤ p ∧ p + 8 ≤ page.header b

/-- The free list ends with null after `m_free_count` different blocks. -/
def FreeChain (page : Page) (b : ℕ) (s : MmState) : Prop :=
  ∃ nodes, Linked s.m.word s.mem.m_free_ptr nodes ∧ (nodes.length : ℤ) = s.mem.m_free_count ∧
    nodes.Nodup ∧
    ∀ p ∈ nodes, p ∈ page.blocks b

/-- In every run all links are inside the region, and the free list is a list of the free blocks. -/
def LinksSound (m : Memory) (page : Page) (b : ℕ) : Prop :=
  ∀ events s, Run (Step page b) (create m page.base page.count b) events s → StoresInside page b s ∧
    FreeChain page b s

/-- The last store of `mem_create` is behind the region. -/
theorem create_stores_outside (placed : page.Placed b) (m : Memory) :
    ¬ StoresInside page b (create m page.base page.count b) := by
  intro inside
  have top := header_lt placed
  rw [Page.header] at top
  have stored : page.header b ∈ (create m page.base page.count b).stores := by
    change page.header b ∈ (linkStores b page.base page.count).map Prod.fst
    rw [linkStores_eq b page.base page.count top]
    exact List.mem_map.mpr
      ⟨_, List.mem_map.mpr ⟨page.count, List.mem_range.mpr (Nat.lt_succ_self _), rfl⟩, rfl⟩
  exact absurd (inside _ stored).2 (by omega)

/-- The list of a new pool leads out of the region. -/
theorem create_chain_leaves (placed : page.Placed b) (m : Memory) :
    ¬ FreeChain page b (create m page.base page.count b) := by
  rintro ⟨nodes, linked, _, _, blocks⟩
  have base := placed.nonnull
  have reached : ∀ i ≤ page.count, page.base + b * i ∈ nodes := by
    intro i bound
    induction i with
    | zero => exact linked.first_mem (show page.base ≠ 0 by omega)
    | succ i ih =>
      have link := word_create placed m (i := i) (by omega)
      rw [if_pos (by omega)] at link
      have further := linked.next_mem (ih (by omega)) (by rw [link]; omega)
      rwa [link] at further
  have room := placed.room
  have bounds := Page.block_bounds (blocks _ (reached page.count le_rfl))
  rw [Page.header] at bounds
  omega

/-- Neither half of it holds, whatever the sizes are. -/
theorem links_never_sound (placed : page.Placed b) (m : Memory) :
    ¬ LinksSound m page b ∧ ¬ StoresInside page b (create m page.base page.count b) ∧
      ¬ FreeChain page b (create m page.base page.count b) := by
  have outside := create_stores_outside placed m
  exact ⟨fun sound => outside (sound [] _ .start).1, outside, create_chain_leaves placed m⟩

end Runs

/-- A pool of two blocks of 16 bytes. -/
def twoBlocks : Page := ⟨4096, 2⟩

theorem twoBlocks_placed : twoBlocks.Placed 16 :=
  ⟨by decide, by decide, by decide, by decide, by decide, by decide⟩

theorem twoBlocks_obtained : twoBlocks.Obtained 16 := ⟨twoBlocks_placed, by decide, by decide⟩

theorem twoBlocks_links : ¬ LinksSound (fun _ => 0) twoBlocks 16 :=
  (links_never_sound twoBlocks_placed fun _ => 0).1

/-- The pool of `mem_test.cpp`. -/
theorem testPool_links : ¬ LinksSound (fun _ => 0) ⟨4096, 1024⟩ 16 := by
  have placed : Page.Placed 16 ⟨4096, 1024⟩ :=
    ⟨by decide, by decide, by decide, by decide, by decide, by decide⟩
  exact fun sound => create_stores_outside placed (fun _ => 0) (sound [] _ .start).1

/-- The first block is freed while the second one is free. -/
def freeFirst : List MmEvent := [.alloc, .free 4096]

theorem freeFirst_available : ∃ s,
    Run (BelowStep twoBlocks 16) (create (fun _ => 0) twoBlocks.base twoBlocks.count 16) freeFirst s ∧
      s.Available := by
  have replays : Run.Replays (fun s event => s.Enabled twoBlocks 16 event ∧ s.BelowFree event) apply
      (create (fun _ => 0) twoBlocks.base twoBlocks.count 16) freeFirst :=
    ⟨⟨trivial, trivial⟩, ⟨List.mem_cons_self, show (4096 : ℤ) - 4096 < int32 (1 * 16) by decide⟩, trivial⟩
  have run := Run.of_replays_guarded freeFirst _ replays
  exact ⟨_, run, (blocks_available twoBlocks_obtained (fun _ => 0) run).1⟩

/-- The same block is freed while both are held. -/
def freeLate : List MmEvent := [.alloc, .alloc, .free 4096]

theorem freeLate_lost : ∃ s,
    Run (Step twoBlocks 16) (create (fun _ => 0) twoBlocks.base twoBlocks.count 16) freeLate s ∧
    ¬ s.Available := by
  have replays : Run.Replays (fun s => Enabled s twoBlocks 16) apply
      (create (fun _ => 0) twoBlocks.base twoBlocks.count 16) freeLate := by
    refine ⟨trivial, trivial, ?_, trivial⟩
    change 4096 ∈ (((create (fun _ => 0) twoBlocks.base twoBlocks.count 16).alloc).alloc).held
    decide +kernel
  refine ⟨_, Run.of_replays freeLate _ replays, ?_⟩
  rintro ⟨total, _⟩
  exact absurd total (by decide +kernel)

end MmState

end LinuxZero.Mem
