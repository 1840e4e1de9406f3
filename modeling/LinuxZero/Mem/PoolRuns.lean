import LinuxZero.Mem.PoolState

/-! # Every block is free or held

Clients write into their own blocks only and free their own blocks, or pointers that no block has. Then the
list of free blocks, which runs through memory that the clients have used, stays a list: a block that is
freed gets its link anew, and a page that is added comes with all of its own.
-/

namespace LinuxZero.Mem

theorem int32_add (x y : ℤ) : int32 (int32 x + y) = int32 (x + y) := Int.bmod_add_bmod

namespace Consistent

variable {b : ℕ} {s : PoolState} {free : List ℕ} {p : ℕ}

theorem created {auto_increment : ℤ} (created : Created b auto_increment s)
    (growth : 0 < auto_increment → b * auto_increment + sizeofMemPage < 2 ^ 31) :
    ∃ free, Consistent b s free := by
  obtain ⟨m, pool, page, fits, returned, pages, held⟩ := created
  rw [fits.create_mem_pool] at returned
  obtain ⟨memory, object⟩ := Prod.mk.inj (Prod.mk.inj returned).2
  have blocks : s.blocks b = page.blocks b := by simp [PoolState.blocks, pages]
  have length : (page.blocks b).length = page.count := by simp [Page.blocks]
  have size := fits.size
  have total : int32 (page.blocks b).length = page.count := by
    have count : page.count ≤ b * page.count :=
      Nat.le_mul_of_pos_left _ (Nat.lt_of_lt_of_le (by decide) fits.room)
    rw [length]
    exact int32_eq (by omega) (by omega)
  refine ⟨page.blocks b, ?_⟩
  refine { room := fits.room, block_size := ?_, growth := ?_, fits := ?_, apart := ?_, pageList := ?_,
           headers := ?_, freeList := ?_, partition := ?_, free_count := ?_, block_total := ?_ }
  · rw [← object]
  · rwa [← object]
  · simpa [pages] using fits
  · simp [pages]
  · rw [← object, ← memory, pages]
    have empty : Linked (fun p => (m.storeWords (page.stores b)).word (p + 16)) 0 [] :=
      Function.update_self ..
    have nonnull : page.header b ≠ 0 := by
      have base := fits.base
      rw [Page.header]
      omega
    exact empty.cons nonnull (fits.next m)
  · rw [← memory]
    simpa [pages] using fits.headerHolds m
  · rw [← object, ← memory]
    exact fits.freeList m
  · rw [blocks, held, List.map_nil, List.append_nil]
  · rw [← object, total]
  · rw [← object, blocks, total]

variable (consistent : Consistent b s free)
include consistent

/-- What a client writes leaves the pool alone. -/
theorem write {client off : ℕ} {bytes : List UInt8} (own : WritesOwn b s client off bytes) :
    Consistent b { s with m := s.m.write off bytes } free := by
  have room := consistent.room
  refine consistent.frame (fun page listed i lower upper => ?_) (fun p member i lower upper => ?_)
  · refine s.m.write_outside off i bytes ?_
    rcases own with ⟨block, holds, below, above⟩ | outside
    · have apart := consistent.header_apart (consistent.mem_blocks.mpr (Or.inr ⟨client, holds⟩)) listed
      omega
    · have apart := outside page listed
      rw [Page.header] at lower
      omega
  · have member' := consistent.mem_blocks.mpr (Or.inl member)
    refine s.m.write_outside off i bytes ?_
    rcases own with ⟨block, holds, below, above⟩ | outside
    · have ne : p ≠ block := by
        rintro rfl
        exact List.disjoint_of_nodup_append consistent.nodup member (List.mem_map.mpr ⟨_, holds, rfl⟩)
      have apart := consistent.blocks_apart member'
        (consistent.mem_blocks.mpr (Or.inr ⟨client, holds⟩)) ne
      omega
    · obtain ⟨page, listed, inside⟩ := List.mem_flatMap.mp member'
      have bounds := Page.block_bounds inside
      have apart := outside page listed
      rw [Page.header] at bounds
      rw [Page.stop] at apart
      omega

/-- A block that its holder frees becomes the first of the list. -/
theorem release {client : ℕ} (holds : (client, p) ∈ s.held) :
    Consistent b { s with
      m := s.m.storeWord p s.pool.free_ptr
      pool := { s.pool with free_ptr := p, free_count := int32 (s.pool.free_count + 1) }
      held := s.held.erase (client, p) } (p :: free) := by
  have member := consistent.mem_blocks.mpr (Or.inr ⟨client, holds⟩)
  have own : WritesOwn b s client p (Memory.littleEndian 8 s.pool.free_ptr) := by
    refine Or.inl ⟨p, holds, le_rfl, ?_⟩
    have room := consistent.room
    rw [Memory.length_littleEndian]
    omega
  have written := consistent.write own
  refine { written with freeList := ?_, partition := ?_, free_count := ?_ }
  · exact written.freeList.cons (consistent.block_pos member).1.ne'
      (s.m.word_storeWord _ _ consistent.free_ptr_lt)
  · have moved : (s.held.map Prod.snd).Perm (p :: (s.held.erase (client, p)).map Prod.snd) :=
      (List.perm_cons_erase holds).map Prod.snd
    refine List.Perm.trans ?_ consistent.partition
    exact List.perm_middle.symm.trans (moved.symm.append_left free)
  · rw [consistent.free_count, int32_add, List.length_cons, Nat.cast_succ]

/-- The first free block goes to a client. -/
theorem take {client : ℕ} {rest : List ℕ} (first : free = p :: rest) :
    Consistent b { s with pool := (takeBlock s.m s.pool).2.2, held := (client, p) :: s.held } rest := by
  subst first
  have free_ptr : s.pool.free_ptr = p := Linked.first_eq consistent.freeList
  refine { consistent with freeList := ?_, partition := ?_, free_count := ?_ }
  · have tail : FreeList s.m (s.m.word p) rest := Linked.tail consistent.freeList
    rwa [← free_ptr] at tail
  · exact List.perm_middle.trans consistent.partition
  · have count : s.pool.free_count = int32 (rest.length + 1) := by
      rw [consistent.free_count, List.length_cons, Nat.cast_succ]
    change int32 (s.pool.free_count - 1) = _
    rw [count, sub_eq_add_neg, int32_add, add_neg_cancel_right]

theorem mm_lt : s.pool.mm < 2 ^ 64 := by
  rw [Linked.first_eq consistent.pageList]
  cases pages : s.pages with
  | nil => exact Nat.two_pow_pos 64
  | cons page rest =>
    have region := (consistent.fits page (pages ▸ List.mem_cons_self)).region
    rw [Page.stop] at region
    change page.header b < 2 ^ 64
    rw [Page.header]
    omega

theorem newPage_fits {region : ℕ} (grows : s.Grows region) (promise : s.Promise b region) :
    (s.newPage region).Fits b := by
  obtain ⟨returned, _⟩ := promise grows
  obtain ⟨_, positive, nonnull⟩ := grows
  have count : (((s.newPage region).count : ℕ) : ℤ) = s.pool.auto_increment :=
    Int.toNat_of_nonneg positive.le
  have size : b * (s.newPage region).count + sizeofMemPage < 2 ^ 31 := by
    have growth := consistent.growth positive
    rw [← count] at growth
    exact_mod_cast growth
  have request := returned.resolve_left nonnull
  rw [consistent.block_size, ← count, memPageSize_eq size] at request
  refine ⟨consistent.room, by omega, size, Nat.pos_of_ne_zero nonnull, ?_⟩
  change region + b * (s.newPage region).count + sizeofMemPage ≤ 2 ^ 63
  omega

/-- The new page comes before the others, and all its blocks are free. -/
theorem grow {region : ℕ} (empty : free = []) (grows : s.Grows region) (promise : s.Promise b region) :
    Consistent b (s.grow b region) ((s.newPage region).blocks b) := by
  have fits := consistent.newPage_fits grows promise
  have count : (((s.newPage region).count : ℕ) : ℤ) = s.pool.auto_increment :=
    Int.toNat_of_nonneg grows.2.1.le
  have regions := (promise grows).2
  generalize new : s.newPage region = page at *
  have length : (page.blocks b).length = page.count := by simp [Page.blocks]
  have base := fits.base
  have header : page.header b + 24 = page.stop b := rfl
  have written : (s.grow b region).m = (s.m.storeWords (page.stores b)).storeWord
    (page.header b + 16) s.pool.mm := by
    rw [PoolState.grow, new]
  have inner : ∀ q, q + 8 ≤ page.header b + 16 →
    (s.grow b region).m.word q = (s.m.storeWords (page.stores b)).word q := by
    intro q below
    rw [written]
    exact Memory.word_storeWord_disjoint _ _ _ _ (Or.inl below)
  have outer : ∀ q, q + 8 ≤ page.base ∨ page.stop b ≤ q → (s.grow b region).m.word q = s.m.word q := by
    intro q outside
    have lower : page.base ≤ page.header b := Nat.le_add_right ..
    rw [written, Memory.word_storeWord_disjoint _ _ _ _ (by omega)]
    refine Memory.word_storeWords_disjoint _ _ _ fun store member => ?_
    have inside := fits.stores_inside member
    omega
  have old : ∀ other ∈ s.pages, ∀ k ≤ 16, (s.grow b region).m.word (other.header b + k) = s.m.word
    (other.header b + k) := by
    intro other listed k bound
    have apart := regions other listed
    have lower : other.base ≤ other.header b := Nat.le_add_right ..
    have upper : other.header b + 24 = other.stop b := rfl
    rw [Page.Apart] at apart
    exact outer _ (by omega)
  have beg : (s.grow b region).m.word (page.header b) = page.base :=
    (inner _ (by omega)).trans (fits.headerHolds s.m).beg
  refine { room := consistent.room, block_size := consistent.block_size, growth := consistent.growth,
           fits := ?_, apart := ?_, pageList := ?_, headers := ?_, freeList := ?_, partition := ?_,
           free_count := ?_, block_total := ?_ }
  · exact List.forall_mem_cons.mpr ⟨new ▸ fits, consistent.fits⟩
  · exact List.pairwise_cons.mpr ⟨new ▸ regions, consistent.apart⟩
  · have rest : Linked (fun p => (s.grow b region).m.word (p + 16)) s.pool.mm
      (s.pages.map (Page.header b)) := by
      refine Linked.congr consistent.pageList fun p member => ?_
      obtain ⟨other, listed, rfl⟩ := List.mem_map.mp member
      exact old other listed 16 le_rfl
    have link : (s.grow b region).m.word (page.header b + 16) = s.pool.mm := by
      rw [written]
      exact Memory.word_storeWord _ _ _ consistent.mm_lt
    have linked := rest.cons (p := page.header b) (by rw [Page.header]; omega) link
    rwa [← new] at linked
  · refine List.forall_mem_cons.mpr ⟨?_, fun other listed => ?_⟩
    · rw [new]
      exact ⟨beg, (inner _ (by omega)).trans (fits.headerHolds s.m).stop⟩
    · obtain ⟨beg, stop⟩ := consistent.headers other listed
      exact ⟨(old other listed 0 (by decide)).trans beg, (old other listed 8 (by decide)).trans stop⟩
  · have room := consistent.room
    have list : FreeList (s.grow b region).m page.base (page.blocks b) := by
      refine Linked.congr (fits.freeList s.m) fun p member => inner p ?_
      have bounds := Page.block_bounds member
      omega
    have free_ptr : (s.grow b region).pool.free_ptr = (s.grow b region).m.word (page.header b) := by
      rw [← new]
      rfl
    rwa [← beg, ← free_ptr] at list
  · have partition := consistent.partition
    rw [empty, List.nil_append] at partition
    have blocks : (s.grow b region).blocks b = page.blocks b ++ s.blocks b := by
      rw [← new]
      rfl
    rw [blocks]
    exact partition.append_left _
  · change int32 (s.pool.free_count + s.pool.auto_increment) = _
    rw [consistent.free_count, empty, int32_add, List.length_nil, length, count, Nat.cast_zero, zero_add]
  · change int32 (s.pool.block_total + s.pool.auto_increment) = _
    have blocks : ((s.grow b region).blocks b).length = page.count + (s.blocks b).length := by
      rw [← length, ← List.length_append, ← new]
      rfl
    rw [consistent.block_total, int32_add, blocks, Nat.cast_add, count, add_comm]

theorem malloc_grown {region : ℕ} (grows : s.Grows region) (promise : s.Promise b region) :
    malloc_mem_pool s.m s.pool region = takeBlock (s.grow b region).m (s.grow b region).pool := by
  have fits := consistent.newPage_fits grows promise
  have count : (((s.newPage region).count : ℕ) : ℤ) = s.pool.auto_increment :=
    Int.toNat_of_nonneg grows.2.1.le
  have page := fits.malloc_mem_page s.m
  rw [count, ← consistent.block_size] at page
  have page' : malloc_mem_page s.m region s.pool.block_size s.pool.auto_increment = _ := page
  have nonnull : (s.newPage region).header b ≠ 0 := by
    have base := fits.base
    rw [Page.header]
    omega
  rw [malloc_mem_pool, if_pos grows.1, if_neg (not_le.mpr grows.2.1), page']
  dsimp only
  rw [if_neg nonnull]
  rfl

omit consistent in
theorem malloc_null {region : ℕ} (empty : s.pool.free_ptr = 0) (still : ¬ s.Grows region) :
    malloc_mem_pool s.m s.pool region = (0, s.m, s.pool) := by
  rw [malloc_mem_pool, if_pos empty]
  by_cases fixed : s.pool.auto_increment ≤ 0
  · exact if_pos fixed
  · have null : region = 0 := by
      by_contra nonnull
      exact still ⟨empty, not_le.mp fixed, nonnull⟩
    rw [if_neg fixed, null, malloc_mem_page, if_pos rfl]
    exact if_pos rfl

/-- What a client gets: the first free block, the first block of a new page, or null. -/
theorem malloc_cases (client : ℕ) {region : ℕ} (promise : s.Promise b region) :
    (∃ p rest, free = p :: rest ∧ (malloc_mem_pool s.m s.pool region).1 = p ∧ s.malloc client region =
        { s with pool := (takeBlock s.m s.pool).2.2, held := (client, p) :: s.held }) ∨
      (free = [] ∧ s.Grows region ∧ (malloc_mem_pool s.m s.pool region).1 = region ∧
      s.malloc client region =
        { s.grow b region with
          pool := (takeBlock (s.grow b region).m (s.grow b region).pool).2.2
          held := (client, region) :: s.held }) ∨
      free = [] ∧ ¬ s.Grows region ∧ (malloc_mem_pool s.m s.pool region).1 = 0 ∧
      s.malloc client region = s := by
  have first : s.pool.free_ptr = free.head?.getD 0 := Linked.first_eq consistent.freeList
  cases free with
  | cons p rest =>
    have nonnull : p ≠ 0 := Linked.nonnull consistent.freeList List.mem_cons_self
    have full : s.pool.free_ptr ≠ 0 := first ▸ nonnull
    have taken : malloc_mem_pool s.m s.pool region = takeBlock s.m s.pool := if_neg full
    have still : ¬ s.Grows region := fun grows => full grows.1
    refine Or.inl ⟨p, rest, rfl, ?_, ?_⟩
    · rw [taken]
      exact first
    · have held : (if p = 0 then s.held else (client, p) :: s.held) = (client, p) :: s.held :=
        if_neg nonnull
      rw [PoolState.malloc, taken]
      simp only [takeBlock, if_neg still, first, List.head?_cons, Option.getD_some, held]
  | nil =>
    by_cases grows : s.Grows region
    · have beg : (s.grow b region).pool.free_ptr = region := by
        obtain ⟨rest, blocks⟩ := Page.blocks_eq_cons (consistent.newPage_fits grows promise).count
        rw [Linked.first_eq (consistent.grow rfl grows promise).freeList, blocks]
        rfl
      have taken := consistent.malloc_grown grows promise
      have held : (if region = 0 then s.held else (client, region) :: s.held) =
        (client, region) :: s.held :=
        if_neg grows.2.2
      refine Or.inr (Or.inl ⟨rfl, grows, ?_, ?_⟩)
      · rw [taken]
        exact beg
      · rw [PoolState.malloc, taken]
        simp only [takeBlock, if_pos grows, beg, held]
        rfl
    · refine Or.inr (Or.inr ⟨rfl, grows, ?_, ?_⟩)
      · rw [malloc_null first grows]
      · rw [PoolState.malloc, malloc_null first grows]
        simp only [if_neg grows, if_true]

theorem malloc {client region : ℕ} (promise : s.Promise b region) :
    ∃ free', Consistent b (s.malloc client region) free' := by
  rcases consistent.malloc_cases client promise with ⟨p, rest, first, _, taken⟩ |
      ⟨empty, grows, _, grown⟩ | ⟨_, _, _, same⟩
  · exact ⟨rest, taken ▸ consistent.take first⟩
  · obtain ⟨rest, first⟩ := Page.blocks_eq_cons (consistent.newPage_fits grows promise).count
    exact ⟨rest, grown ▸ (consistent.grow empty grows promise).take first⟩
  · rw [same]
    exact ⟨free, consistent⟩

/-- A pointer that no block has changes nothing. -/
theorem free_foreign {client ptr : ℕ} {m : Memory} {pool : MemPool} (foreign : ptr ∉ s.blocks b)
    (frees : Frees s.m s.pool ptr (m, pool)) :
    { s with m := m, pool := pool, held := s.held.erase (client, ptr) } = s := by
  have after := (consistent.frees_iff ptr (m, pool)).mp frees
  rw [if_neg foreign] at after
  obtain ⟨rfl, rfl⟩ := Prod.mk.inj after
  have nobody : (client, ptr) ∉ s.held := fun holds =>
    foreign (consistent.mem_blocks.mpr (Or.inr ⟨client, holds⟩))
  rw [List.erase_of_not_mem nobody]

theorem free_held {client ptr : ℕ} {m : Memory} {pool : MemPool} (holds : (client, ptr) ∈ s.held)
    (frees : Frees s.m s.pool ptr (m, pool)) :
    Consistent b { s with m := m, pool := pool, held := s.held.erase (client, ptr) } (ptr :: free) := by
  have after := (consistent.frees_iff ptr (m, pool)).mp frees
  rw [if_pos (consistent.mem_blocks.mpr (Or.inr ⟨client, holds⟩))] at after
  obtain ⟨rfl, rfl⟩ := Prod.mk.inj after
  exact consistent.release holds

end Consistent

/-- Clients write into blocks that they hold, and free these or pointers that no block has. -/
def Disciplined (b : ℕ) (s : PoolState) : PoolEvent → Prop
  | .malloc _ _ => True
  | .free client ptr => (client, ptr) ∈ s.held ∨ s.Foreign b ptr
  | .write client off bytes => WritesOwn b s client off bytes

theorem Consistent.step {b : ℕ} {s t : PoolState} {event : PoolEvent}
    (consistent : ∃ free, Consistent b s free) (step : PoolStep b s event t)
    (disciplined : Disciplined b s event) : ∃ free, Consistent b t free := by
  obtain ⟨free, consistent⟩ := consistent
  cases step with
  | malloc promise => exact consistent.malloc promise
  | free frees =>
    rcases disciplined with holds | foreign
    · exact ⟨_, consistent.free_held holds frees⟩
    · rw [consistent.free_foreign (consistent.foreign_iff.mp foreign) frees]
      exact ⟨free, consistent⟩
  | write => exact ⟨free, consistent.write disciplined⟩

/-- What clients may rely on. -/
structure Partitioned (b : ℕ) (s : PoolState) (free : List ℕ) : Prop where
  /-- The pool object lists all pages. -/
  pageList : Linked (fun p => s.m.word (p + 16)) s.pool.mm (s.pages.map (Page.header b))
  /-- The free list ends with null and has no block twice. -/
  freeList : FreeList s.m s.pool.free_ptr free ∧ free.Nodup
  /-- Only blocks of the pages are free or held. -/
  blocks : ∀ p, p ∈ free ∨ (∃ client, (client, p) ∈ s.held) → p ∈ s.blocks b
  /-- A block is free or held by exactly one client, and not both. -/
  once : ∀ p ∈ s.blocks b, (p ∈ free ∧ ∀ client, (client, p) ∉ s.held) ∨
    (p ∉ free ∧ ∃! client, (client, p) ∈ s.held)
  /-- The counters hold the lengths, as long as they fit into an `int`. -/
  counts : (s.blocks b).length < 2 ^ 31 → s.pool.free_count = free.length ∧
    s.pool.block_total = (s.blocks b).length
  /-- A client gets a block that nobody holds. -/
  fresh : ∀ client region, s.Promise b region → (malloc_mem_pool s.m s.pool region).1 ≠ 0 →
    (∀ other, (other, (malloc_mem_pool s.m s.pool region).1) ∉ s.held) ∧
      (malloc_mem_pool s.m s.pool region).1 ∈ (s.malloc client region).blocks b
  /-- A client gets null only if no block is free and the pool cannot grow. -/
  exhausted : ∀ region, s.Promise b region → (malloc_mem_pool s.m s.pool region).1 = 0 →
    free = [] ∧ (s.pool.auto_increment ≤ 0 ∨ region = 0)
  /-- Every call of `free_mem_pool` returns. -/
  frees : ∀ ptr, ∃ after, Frees s.m s.pool ptr after

namespace Consistent

variable {b : ℕ} {s : PoolState} {free : List ℕ} (consistent : Consistent b s free)
include consistent

theorem once {p : ℕ} (member : p ∈ s.blocks b) :
    (p ∈ free ∧ ∀ client, (client, p) ∉ s.held) ∨ (p ∉ free ∧ ∃! client, (client, p) ∈ s.held) := by
  have apart := List.disjoint_of_nodup_append consistent.nodup
  rcases consistent.mem_blocks.mp member with listed | ⟨client, holds⟩
  · exact Or.inl ⟨listed, fun client holds => apart listed (List.mem_map.mpr ⟨_, holds, rfl⟩)⟩
  · refine Or.inr ⟨fun listed => apart listed (List.mem_map.mpr ⟨_, holds, rfl⟩), client, holds,
      fun other holds' => ?_⟩
    have injective := List.inj_on_of_nodup_map (List.nodup_append.mp consistent.nodup).2.1
    exact congrArg Prod.fst (injective holds' holds rfl)

theorem counts (fits : (s.blocks b).length < 2 ^ 31) :
    s.pool.free_count = free.length ∧ s.pool.block_total = (s.blocks b).length := by
  have split := consistent.partition.length_eq
  rw [List.length_append] at split
  rw [consistent.free_count, consistent.block_total]
  exact ⟨int32_eq (by omega) (by omega), int32_eq (by omega) (by omega)⟩

theorem fresh (client : ℕ) {region : ℕ} (promise : s.Promise b region)
    (nonnull : (malloc_mem_pool s.m s.pool region).1 ≠ 0) :
    (∀ other, (other, (malloc_mem_pool s.m s.pool region).1) ∉ s.held) ∧
      (malloc_mem_pool s.m s.pool region).1 ∈ (s.malloc client region).blocks b := by
  rcases consistent.malloc_cases client promise with ⟨p, rest, rfl, block, taken⟩ |
      ⟨_, grows, block, grown⟩ | ⟨_, _, null, _⟩
  · have member := consistent.mem_blocks.mpr (Or.inl List.mem_cons_self)
    rw [block, taken]
    refine ⟨?_, member⟩
    exact (consistent.once member).resolve_right (fun holds => holds.1 List.mem_cons_self) |>.2
  · obtain ⟨rest, first⟩ := Page.blocks_eq_cons (b := b) (consistent.newPage_fits grows promise).count
    have member : region ∈ (s.newPage region).blocks b := first ▸ List.mem_cons_self
    rw [block, grown]
    refine ⟨fun other holds => ?_, List.mem_append_left _ member⟩
    obtain ⟨page, listed, inside⟩ :=
      List.mem_flatMap.mp (consistent.mem_blocks.mpr (Or.inr ⟨other, holds⟩))
    have apart := (promise grows).2 page listed
    have bounds := Page.block_bounds inside
    have bounds' := Page.block_bounds member
    rw [Page.header] at bounds bounds'
    rw [Page.Apart, Page.stop, Page.stop] at apart
    have room := consistent.room
    omega
  · exact absurd null nonnull

theorem exhausted {region : ℕ} (promise : s.Promise b region)
    (null : (malloc_mem_pool s.m s.pool region).1 = 0) :
    free = [] ∧ (s.pool.auto_increment ≤ 0 ∨ region = 0) := by
  rcases consistent.malloc_cases 0 promise with ⟨p, rest, rfl, block, _⟩ | ⟨_, grows, block, _⟩ |
      ⟨empty, still, _⟩
  · exact absurd (block.symm.trans null) (Linked.nonnull consistent.freeList List.mem_cons_self)
  · exact absurd (block.symm.trans null) grows.2.2
  · refine ⟨empty, ?_⟩
    by_contra grows
    obtain ⟨positive, nonnull⟩ := not_or.mp grows
    exact still ⟨(Linked.null_iff consistent.freeList).mpr empty, not_le.mp positive, nonnull⟩

theorem partitioned : Partitioned b s free where
  pageList := consistent.pageList
  freeList := ⟨consistent.freeList, (List.nodup_append.mp consistent.nodup).1⟩
  blocks _ := consistent.mem_blocks.mpr
  once _ := consistent.once
  counts := consistent.counts
  fresh client _ := consistent.fresh client
  exhausted _ := consistent.exhausted
  frees ptr := ⟨_, (consistent.frees_iff ptr _).mpr rfl⟩

end Consistent

/-- After every run of disciplined clients, whatever `malloc` does, each block is free or held by one client. -/
theorem pool_partitioned (b : ℕ) (auto_increment : ℤ)
    (growth : 0 < auto_increment → b * auto_increment + sizeofMemPage < 2 ^ 31) {s t : PoolState}
    {events : List PoolEvent} (created : Created b auto_increment s)
    (run : Run (fun s event t => PoolStep b s event t ∧ Disciplined b s event) s events t) :
    ∃ free, Partitioned b t free := by
  have start := Consistent.created created growth
  obtain ⟨free, consistent⟩ := run.invariant (fun t => ∃ free, Consistent b t free)
    (fun s event t consistent step => Consistent.step consistent step.1 step.2) start
  exact ⟨free, consistent.partitioned⟩

/-- Two blocks of 64 bytes, and room for two more with the next page. -/
def smallPool : PoolState := PoolState.create 64 (fun _ => 0) ⟨0, 0, 0, 0, 0, 0⟩ ⟨4096, 2⟩ 2

theorem smallPool_created : Created 64 2 smallPool :=
  Page.Fits.created ⟨by decide, by decide, by decide, by decide, by decide⟩ ..

def threeClients : List PoolEvent :=
  [.malloc 1 0, .malloc 2 0, .malloc 3 8192, .write 1 4096 [7, 7], .free 1 4096, .free 2 4100]

theorem threeClients_partitioned :
    ∃ free, Partitioned 64 (threeClients.foldl PoolState.next smallPool) free := by
  have replays : Run.Replays (fun s event => s.Possible 64 event ∧ Disciplined 64 s event)
    PoolState.next smallPool
      threeClients :=
    ⟨⟨by decide +kernel, trivial⟩, ⟨by decide +kernel, trivial⟩, ⟨by decide +kernel, trivial⟩,
      ⟨trivial, Or.inl ⟨4096, by decide +kernel, by decide, by decide⟩⟩,
      ⟨by decide +kernel, Or.inl (by decide +kernel)⟩,
      ⟨by decide +kernel, Or.inr (by unfold PoolState.Foreign; decide +kernel)⟩, trivial⟩
  exact pool_partitioned 64 2 (by decide) smallPool_created
    (PoolStep.run_of_replays threeClients smallPool replays)

end LinuxZero.Mem
