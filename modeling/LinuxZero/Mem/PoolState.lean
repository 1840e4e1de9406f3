import LinuxZero.Lib.Run
import LinuxZero.Mem.CreatePool
import Mathlib.Data.List.Nodup

/-! # The pool and its clients

A state is the memory, the pool object, the regions that `malloc` has returned and who holds which block;
the last two are only there to be talked about. A free block holds its link, everything else in a block
belongs to the client. Whatever a client does, the pool sees three events.
-/

namespace LinuxZero.Mem

structure PoolState where
  m : Memory
  pool : MemPool
  pages : List Page
  held : List (ℕ × ℕ)

inductive PoolEvent
  /-- A client calls `malloc_mem_pool`; the region is what `malloc` returns if it is called. -/
  | malloc (client region : ℕ)
  | free (client ptr : ℕ)
  | write (client off : ℕ) (bytes : List UInt8)
deriving DecidableEq, Repr

/-- Two regions do not overlap. -/
def Page.Apart (b : ℕ) (page other : Page) : Prop := page.stop b ≤ other.base ∨ other.stop b ≤ page.base

instance (b : ℕ) (page other : Page) : Decidable (page.Apart b other) :=
  inferInstanceAs (Decidable (_ ∨ _))

instance (b : ℕ) : Std.Symm (Page.Apart b) := ⟨fun _ _ => Or.symm⟩

namespace PoolState

variable (b : ℕ) (s : PoolState)

/-- All blocks of all pages. -/
def blocks : List ℕ := s.pages.flatMap (Page.blocks b)

/-- `malloc_mem_pool` gets a new page. -/
def Grows (region : ℕ) : Prop := s.pool.free_ptr = 0 ∧ 0 < s.pool.auto_increment ∧ region ≠ 0

instance (region : ℕ) : Decidable (s.Grows region) := inferInstanceAs (Decidable (_ ∧ _))

def newPage (region : ℕ) : Page := ⟨region, s.pool.auto_increment.toNat⟩

/-- `malloc` returns null, or a region of the requested size that overlaps no other. -/
def Promise (region : ℕ) : Prop :=
  s.Grows region → MallocReturns (memPageSize s.pool.block_size s.pool.auto_increment) region ∧
    ∀ page ∈ s.pages, (s.newPage region).Apart b page

/-- The pool with the new page, none of whose blocks has been taken yet. -/
def grow (region : ℕ) : PoolState :=
  let page := s.newPage region
  let m := (s.m.storeWords (page.stores b)).storeWord (page.header b + 16) s.pool.mm
  { s with
    m := m
    pool := { s.pool with
      mm := page.header b
      free_ptr := m.word (page.header b)
      free_count := int32 (s.pool.free_count + s.pool.auto_increment)
      block_total := int32 (s.pool.block_total + s.pool.auto_increment) }
    pages := page :: s.pages }

instance (region : ℕ) : Decidable (s.Promise b region) := inferInstanceAs (Decidable (_ → _))

/-- The pool that `create_mem_pool` makes of the page. -/
def create (m : Memory) (pool : MemPool) (page : Page) (auto_increment : ℤ) : PoolState :=
  let (_, m, pool) := create_mem_pool m pool page.base b page.count auto_increment
  { m := m, pool := pool, pages := [page], held := [] }

def malloc (client region : ℕ) : PoolState :=
  let (block, m, pool) := malloc_mem_pool s.m s.pool region
  { m := m
    pool := pool
    pages := if s.Grows region then s.newPage region :: s.pages else s.pages
    held := if block = 0 then s.held else (client, block) :: s.held }

def free (client ptr : ℕ) : PoolState :=
  let (m, pool) := (free_mem_pool (s.pages.length + 1) s.m s.pool ptr).getD (s.m, s.pool)
  { s with m := m, pool := pool, held := s.held.erase (client, ptr) }

/-- The state after an event, as far as the loop over the pages gets. -/
def next : PoolEvent → PoolState
  | .malloc client region => s.malloc client region
  | .free client ptr => s.free client ptr
  | .write _ off bytes => { s with m := s.m.write off bytes }

/-- `malloc` keeps its promise, and the loop over the pages comes to an end. -/
def Possible : PoolEvent → Prop
  | .malloc _ region => s.Promise b region
  | .free _ ptr => (free_mem_pool (s.pages.length + 1) s.m s.pool ptr).isSome
  | .write .. => True

instance : (event : PoolEvent) → Decidable (s.Possible b event)
  | .malloc _ region => inferInstanceAs (Decidable (s.Promise b region))
  | .free _ _ => inferInstanceAs (Decidable (_ = true))
  | .write .. => inferInstanceAs (Decidable True)

end PoolState

/-- A pool that `create_mem_pool` has just made. -/
def Created (b : ℕ) (auto_increment : ℤ) (s : PoolState) : Prop :=
  ∃ (m : Memory) (pool : MemPool) (page : Page), page.Fits b ∧
    create_mem_pool m pool page.base b page.count auto_increment = (0, s.m, s.pool) ∧
    s.pages = [page] ∧ s.held = []

/-- What an event leaves behind. A block that is freed is not held by its client any more. -/
inductive PoolStep (b : ℕ) (s : PoolState) : PoolEvent → PoolState → Prop
  | malloc {client region : ℕ} (promise : s.Promise b region) :
      PoolStep b s (.malloc client region) (s.malloc client region)
  | free {client ptr : ℕ} {m : Memory} {pool : MemPool} (frees : Frees s.m s.pool ptr (m, pool)) :
      PoolStep b s (.free client ptr) { s with m := m, pool := pool, held := s.held.erase (client, ptr) }
  | write {client off : ℕ} {bytes : List UInt8} :
      PoolStep b s (.write client off bytes) { s with m := s.m.write off bytes }

theorem Page.Fits.created {b : ℕ} {page : Page} (fits : page.Fits b) (m : Memory) (pool : MemPool)
    (auto_increment : ℤ) :
    Created b auto_increment (PoolState.create b m pool page auto_increment) :=
  ⟨m, pool, page, fits, by rw [PoolState.create, fits.create_mem_pool], rfl, rfl⟩

theorem PoolStep.of_possible {b : ℕ} {s : PoolState} {event : PoolEvent} (possible : s.Possible b event) :
    PoolStep b s event (s.next event) := by
  cases event with
  | malloc client region => exact .malloc possible
  | free client ptr =>
    refine .free ⟨s.pages.length + 1, ?_⟩
    obtain ⟨after, returned⟩ := Option.isSome_iff_exists.mp possible
    rw [returned]
  | write client off bytes => exact .write

theorem PoolStep.run_of_replays {b : ℕ} {discipline : PoolState → PoolEvent → Prop}
    (events : List PoolEvent) (s : PoolState)
    (replays : Run.Replays (fun s event => s.Possible b event ∧ discipline s event)
      PoolState.next s events) :
    Run (fun s event t => PoolStep b s event t ∧ discipline s event) s events
      (events.foldl PoolState.next s) := by
  refine (Run.of_replays events s replays).mono ?_
  rintro s event t ⟨⟨possible, disciplined⟩, rfl⟩
  exact ⟨PoolStep.of_possible possible, disciplined⟩

/-- A client writes only inside blocks that it holds, or where the pool has no memory. -/
def WritesOwn (b : ℕ) (s : PoolState) (client off : ℕ) (bytes : List UInt8) : Prop :=
  (∃ block, (client, block) ∈ s.held ∧ block ≤ off ∧ off + bytes.length ≤ block + b) ∨
    ∀ page ∈ s.pages, off + bytes.length ≤ page.base ∨ page.stop b ≤ off

/-- A pointer outside every page, or at an offset that is no multiple of the block size. -/
def PoolState.Foreign (b : ℕ) (s : PoolState) (ptr : ℕ) : Prop :=
  ∀ page ∈ s.pages, page.base ≤ ptr ∧ ptr < page.header b → ¬ b ∣ ptr - page.base

/-- What the pool is: the pages and the free blocks are listed in its memory, and a block is free or held. -/
structure Consistent (b : ℕ) (s : PoolState) (free : List ℕ) : Prop where
  room : 8 ≤ b
  block_size : s.pool.block_size = b
  growth : 0 < s.pool.auto_increment → b * s.pool.auto_increment + sizeofMemPage < 2 ^ 31
  fits : ∀ page ∈ s.pages, page.Fits b
  apart : s.pages.Pairwise (Page.Apart b)
  pageList : Linked (fun p => s.m.word (p + 16)) s.pool.mm (s.pages.map (Page.header b))
  headers : ∀ page ∈ s.pages, page.HeaderHolds b s.m
  freeList : FreeList s.m s.pool.free_ptr free
  partition : (free ++ s.held.map Prod.snd).Perm (s.blocks b)
  free_count : s.pool.free_count = int32 free.length
  block_total : s.pool.block_total = int32 (s.blocks b).length

section FindPage

variable {b : ℕ} {m : Memory} {pages : List Page}

/-- The page that a pointer is looked up in. -/
def pageOf (b : ℕ) (pages : List Page) (ptr : ℕ) : Option Page :=
  pages.find? fun page => page.base ≤ ptr ∧ ptr < page.header b

/-- The loop over the pages returns. -/
theorem findPage_returns (ptr : ℕ) {first : ℕ}
    (linked : Linked (fun p => m.word (p + 16)) first (pages.map (Page.header b)))
    (headers : ∀ page ∈ pages, page.HeaderHolds b m) :
    Loop.Returns (findPage m ptr) first (((pageOf b pages ptr).map (Page.header b)).getD 0) := by
  induction pages generalizing first with
  | nil =>
    obtain rfl := linked.first_eq
    exact Loop.returns_of_exit rfl
  | cons page rest ih =>
    obtain rfl : first = page.header b := linked.first_eq
    have nonnull : page.header b ≠ 0 := linked.nonnull List.mem_cons_self
    obtain ⟨beg, stop⟩ := headers page List.mem_cons_self
    rw [pageOf, List.find?_cons]
    by_cases inside : page.base ≤ ptr ∧ ptr < page.header b
    · refine Loop.returns_of_exit ?_
      rw [findPage, if_neg nonnull, beg, stop, if_pos inside]
      simp [inside]
    · have round : findPage m ptr (page.header b) = .inl (m.word (page.header b + 16)) := by
        rw [findPage, if_neg nonnull, beg, stop, if_neg inside]
      have later := ih linked.tail fun other member => headers other (List.mem_cons_of_mem page member)
      rw [Loop.returns_iff_of_round round]
      simpa only [inside, decide_false, pageOf] using later

theorem frees_of_returns {pool : MemPool} {ptr page : ℕ} (nonnull : ptr ≠ 0)
    (returns : Loop.Returns (findPage m ptr) pool.mm page) (after : Memory × MemPool) :
    Frees m pool ptr after ↔ after = releaseBlock m pool ptr page := by
  constructor
  · rintro ⟨fuel, success⟩
    rw [free_mem_pool, if_neg nonnull] at success
    obtain ⟨found, run, rfl⟩ := Option.map_eq_some_iff.mp success
    rw [Loop.Returns.unique ⟨fuel, run⟩ returns]
  · rintro rfl
    obtain ⟨fuel, run⟩ := returns
    exact ⟨fuel, by rw [free_mem_pool, if_neg nonnull, run, Option.map_some]⟩

theorem frees_null (m : Memory) (pool : MemPool) (after : Memory × MemPool) : Frees m pool 0 after ↔
    after = (m, pool) := by
  constructor
  · rintro ⟨fuel, success⟩
    exact (Option.some.inj success).symm
  · rintro rfl
    exact ⟨0, rfl⟩

end FindPage

namespace Consistent

variable {b : ℕ} {s : PoolState} {free : List ℕ} (consistent : Consistent b s free)
include consistent

theorem mem_blocks {p : ℕ} : p ∈ s.blocks b ↔ p ∈ free ∨ ∃ client, (client, p) ∈ s.held := by
  rw [← consistent.partition.mem_iff, List.mem_append, List.mem_map]
  simp

theorem page_apart {page other : Page} (listed : page ∈ s.pages) (listed' : other ∈ s.pages)
    (ne : page ≠ other) :
    page.Apart b other :=
  consistent.apart.forall listed listed' ne

theorem blocks_apart {p q : ℕ} (member : p ∈ s.blocks b) (member' : q ∈ s.blocks b) (ne : p ≠ q) :
    p + b ≤ q ∨ q + b ≤ p := by
  obtain ⟨page, listed, inside⟩ := List.mem_flatMap.mp member
  obtain ⟨other, listed', inside'⟩ := List.mem_flatMap.mp member'
  by_cases same : page = other
  · subst same
    exact Page.apart_of_ne inside inside' ne
  · have regions := consistent.page_apart listed listed' same
    have bounds := Page.block_bounds inside
    have bounds' := Page.block_bounds inside'
    rw [Page.header] at bounds bounds'
    rw [Page.Apart, Page.stop, Page.stop] at regions
    omega

/-- A block does not reach into a header. -/
theorem header_apart {p : ℕ} {page : Page} (member : p ∈ s.blocks b) (listed : page ∈ s.pages) :
    p + b ≤ page.header b ∨ page.stop b ≤ p := by
  obtain ⟨other, listed', inside⟩ := List.mem_flatMap.mp member
  have bounds := Page.block_bounds inside
  by_cases same : page = other
  · subst same
    exact Or.inl bounds.2
  · have regions := consistent.page_apart listed listed' same
    rw [Page.header] at bounds ⊢
    rw [Page.Apart, Page.stop, Page.stop] at regions
    rw [Page.stop]
    omega

theorem blocks_nodup : (s.blocks b).Nodup := by
  have room := consistent.room
  rw [PoolState.blocks, List.nodup_flatMap]
  refine ⟨fun page _ => Page.blocks_nodup (by omega), ?_⟩
  refine consistent.apart.imp_of_mem fun {page other} listed listed' regions => ?_
  intro p inside inside'
  have bounds := Page.block_bounds inside
  have bounds' := Page.block_bounds inside'
  rw [Page.header] at bounds bounds'
  rw [Page.Apart, Page.stop, Page.stop] at regions
  omega

theorem foreign_iff {ptr : ℕ} : s.Foreign b ptr ↔ ptr ∉ s.blocks b := by
  have room := consistent.room
  constructor
  · intro foreign member
    obtain ⟨page, listed, inside⟩ := List.mem_flatMap.mp member
    obtain ⟨lower, upper⟩ := Page.block_bounds inside
    have within : page.base ≤ ptr ∧ ptr < page.header b := ⟨lower, by omega⟩
    exact foreign page listed within ((Page.mem_blocks_iff_dvd within).mp inside)
  · intro outside page listed within multiple
    exact outside (List.mem_flatMap.mpr ⟨page, listed, (Page.mem_blocks_iff_dvd within).mpr multiple⟩)

theorem nodup : (free ++ s.held.map Prod.snd).Nodup :=
  consistent.partition.nodup_iff.mpr consistent.blocks_nodup

theorem block_pos {p : ℕ} (member : p ∈ s.blocks b) : 0 < p ∧ p + b ≤ 2 ^ 63 := by
  obtain ⟨page, listed, inside⟩ := List.mem_flatMap.mp member
  have bounds := Page.block_bounds inside
  obtain ⟨_, _, _, base, region⟩ := consistent.fits page listed
  rw [Page.header] at bounds
  rw [Page.stop] at region
  omega

theorem free_ptr_lt : s.pool.free_ptr < 2 ^ 64 := by
  rw [Linked.first_eq consistent.freeList]
  cases free with
  | nil => exact Nat.two_pow_pos 64
  | cons p rest =>
    have bounds := consistent.block_pos (consistent.mem_blocks.mpr (Or.inl List.mem_cons_self))
    exact lt_of_le_of_lt (Nat.le_of_add_right_le bounds.2) (by decide)

/-- The pool does not depend on what is written beside the headers and the links. -/
theorem frame {m' : Memory}
    (header : ∀ page ∈ s.pages, ∀ i, page.header b ≤ i → i < page.stop b → m' i = s.m i)
    (link : ∀ p ∈ free, ∀ i, p ≤ i → i < p + 8 → m' i = s.m i) :
    Consistent b { s with m := m' } free := by
  have word : ∀ page ∈ s.pages, ∀ k ≤ 16, m'.word (page.header b + k) = s.m.word (page.header b + k) := by
    intro page listed k bound
    refine Memory.word_congr _ _ _ fun i small => header page listed _ (by omega) ?_
    rw [Page.stop, Page.header, sizeofMemPage]
    omega
  refine { consistent with pageList := ?_, headers := ?_, freeList := ?_ }
  · refine Linked.congr consistent.pageList fun p member => ?_
    obtain ⟨page, listed, rfl⟩ := List.mem_map.mp member
    exact word page listed 16 le_rfl
  · intro page listed
    obtain ⟨beg, stop⟩ := consistent.headers page listed
    exact ⟨(word page listed 0 (by decide)).trans beg, (word page listed 8 (by decide)).trans stop⟩
  · refine Linked.congr consistent.freeList fun p member => ?_
    exact Memory.word_congr _ _ _ fun i small => link p member _ (by omega) (by omega)

/-- In a page that the pointer is inside of, the test of the offset finds the blocks. -/
theorem release_eq {ptr : ℕ} {page : Page} (listed : page ∈ s.pages)
    (inside : page.base ≤ ptr ∧ ptr < page.header b) :
    releaseBlock s.m s.pool ptr (page.header b) = if ptr ∈ s.blocks b then
      (s.m.storeWord ptr s.pool.free_ptr,
        { s.pool with free_ptr := ptr, free_count := int32 (s.pool.free_count + 1) })
    else (s.m, s.pool) := by
  obtain ⟨room, _, size, base, _⟩ := consistent.fits page listed
  obtain ⟨beg, _⟩ := consistent.headers page listed
  have header : page.header b ≠ 0 := by omega
  have blocks : ptr ∈ s.blocks b ↔ b ∣ ptr - page.base := by
    rw [← Page.mem_blocks_iff_dvd inside]
    refine ⟨fun member => ?_, fun member => List.mem_flatMap.mpr ⟨page, listed, member⟩⟩
    obtain ⟨other, listed', member'⟩ := List.mem_flatMap.mp member
    by_cases same : page = other
    · exact same ▸ member'
    · have regions := consistent.page_apart listed listed' same
      have bounds := Page.block_bounds member'
      rw [Page.header] at bounds inside
      rw [Page.Apart, Page.stop, Page.stop] at regions
      omega
  have offset : int32 ((ptr : ℤ) - page.base) = (ptr - page.base : ℕ) := by
    rw [Page.header] at inside
    rw [Nat.cast_sub inside.1]
    exact int32_eq (by omega) (by omega)
  have test : (int32 ((ptr : ℤ) - page.base)).tmod s.pool.block_size = 0 ↔ ptr ∈ s.blocks b := by
    rw [offset, consistent.block_size, blocks, ← Int.dvd_iff_tmod_eq_zero, Int.natCast_dvd_natCast]
  rw [releaseBlock, if_neg header, beg]
  exact if_congr test rfl rfl

/-- `free_mem_pool` looks for the blocks of the pool, and does not know which of them are free. -/
theorem frees_iff (ptr : ℕ) (after : Memory × MemPool) : Frees s.m s.pool ptr after ↔
    after = if ptr ∈ s.blocks b then
      (s.m.storeWord ptr s.pool.free_ptr,
        { s.pool with free_ptr := ptr, free_count := int32 (s.pool.free_count + 1) })
    else (s.m, s.pool) := by
  by_cases null : ptr = 0
  · have outside : ptr ∉ s.blocks b := fun member => (consistent.block_pos member).1.ne' null
    rw [if_neg outside, null]
    exact frees_null ..
  · have returns := findPage_returns ptr consistent.pageList consistent.headers
    rw [frees_of_returns null returns]
    cases search : pageOf b s.pages ptr with
    | none =>
      have outside : ptr ∉ s.blocks b := by
        intro member
        obtain ⟨page, listed, inside⟩ := List.mem_flatMap.mp member
        have bounds := Page.block_bounds inside
        have room := consistent.room
        exact List.find?_eq_none.mp search page listed (decide_eq_true ⟨bounds.1, by omega⟩)
      rw [if_neg outside, Option.map_none, Option.getD_none, releaseBlock, if_pos rfl]
    | some page =>
      rw [pageOf] at search
      have inside := List.find?_some search
      rw [decide_eq_true_iff] at inside
      rw [Option.map_some, Option.getD_some,
        consistent.release_eq (List.mem_of_find?_eq_some search) inside]

end Consistent

end LinuxZero.Mem
