import LinuxZero.Lib.ByteMemory
import LinuxZero.Lib.Loop
import Mathlib.Data.Int.Basic
import Mathlib.Tactic.Ring

/-! # The memory pool

`mem_pool.h`: pages of equally large blocks, each with its header behind its last block, and a list of
the free blocks that runs through the first eight bytes of the blocks themselves. Memory is bytes,
pointers have eight of them, and the arithmetic of `int` wraps at 32 bits. What `malloc` returns is a
parameter; the pool object is a record of its own, and it is never null. Log output is left out.
-/

namespace LinuxZero.Mem

/-- The value that an `int` takes. -/
def int32 (value : ℤ) : ℤ := Int.bmod value (2 ^ 32)

/-- A pointer plus an offset. -/
def ptrAdd (p : ℕ) (offset : ℤ) : ℕ := ((p + offset) % 2 ^ 64).toNat

/-- `mem_pool_t`. -/
structure MemPool where
  block_size : ℤ
  block_total : ℤ
  auto_increment : ℤ
  free_count : ℤ
  free_ptr : ℕ
  mm : ℕ
deriving DecidableEq, Repr

/-- `sizeof(mem_page_t)`: `beg` at 0, `end` at 8, `next` at 16. -/
def sizeofMemPage : ℕ := 24

/-- `mem_page_size`, the argument of `malloc`. -/
def memPageSize (block_size block_count : ℤ) : ℤ :=
  int32 (int32 (block_size * block_count) + sizeofMemPage)

/-- What `malloc` can return: null, or a region of the requested size. A negative size is a `size_t` that
no region has. -/
def MallocReturns (size : ℤ) (ptr : ℕ) : Prop := ptr = 0 ∨ 0 ≤ size ∧ (ptr : ℤ) + size ≤ 2 ^ 63

instance (size : ℤ) (ptr : ℕ) : Decidable (MallocReturns size ptr) := inferInstanceAs (Decidable (_ ∨ _))

/-- The loop that links the blocks, with the number of its rounds, and the store behind it. -/
def linkStores (block_size : ℤ) : ℕ → ℕ → List (ℕ × ℕ)
  | ptr1, 0 => [(ptr1, 0)]
  | ptr1, rounds + 1 => (ptr1, ptrAdd ptr1 block_size) :: linkStores block_size
      (ptrAdd ptr1 block_size) rounds

/-- `malloc_mem_page`: the page, and the pointers it stores. -/
def malloc_mem_page (m : Memory) (ptr : ℕ) (block_size block_count : ℤ) : ℕ × List (ℕ × ℕ) :=
  if ptr = 0 then (0, [])
  else
    let page := ptrAdd ptr (int32 (block_size * block_count))
    let header := [(page, ptr), (page + 8, page), (page + 16, 0)]
    (page, header ++ linkStores block_size ((m.storeWords header).word page) (block_count - 1).toNat)

/-- `create_mem_pool`. -/
def create_mem_pool (m : Memory) (pool : MemPool) (ptr : ℕ) (block_size block_count auto_increment : ℤ) :
    ℤ × Memory × MemPool :=
  if block_size ≤ 0 ∨ block_count ≤ 0 then (-1, m, pool)
  else
    let pool := { pool with
      block_size := block_size
      auto_increment := auto_increment
      free_count := block_count
      block_total := block_count }
    let (page, stores) := malloc_mem_page m ptr block_size block_count
    if page = 0 then (-1, m, pool)
    else
      let m := m.storeWords stores
      (0, m, { pool with mm := page, free_ptr := m.word page })

/-- The end of `malloc_mem_pool`: the first free block is taken off the list. -/
def takeBlock (m : Memory) (pool : MemPool) : ℕ × Memory × MemPool :=
  (pool.free_ptr, m,
    { pool with free_ptr := m.word pool.free_ptr, free_count := int32 (pool.free_count - 1) })

/-- `malloc_mem_pool`; `ptr` is what `malloc` returns if it is called. -/
def malloc_mem_pool (m : Memory) (pool : MemPool) (ptr : ℕ) : ℕ × Memory × MemPool :=
  if pool.free_ptr = 0 then
    if pool.auto_increment ≤ 0 then (0, m, pool)
    else
      let (page, stores) := malloc_mem_page m ptr pool.block_size pool.auto_increment
      if page = 0 then (0, m, pool)
      else
        let m := (m.storeWords stores).storeWord (page + 16) pool.mm
        takeBlock m
          { pool with
            mm := page
            free_ptr := m.word page
            free_count := int32 (pool.free_count + pool.auto_increment)
            block_total := int32 (pool.block_total + pool.auto_increment) }
  else takeBlock m pool

/-- The loop of `free_mem_pool`: the page that `ptr` points into, or null. -/
def findPage (m : Memory) (ptr : ℕ) : Loop ℕ ℕ := fun page =>
  if page = 0 then .inr 0
  else if m.word page ≤ ptr ∧ ptr < m.word (page + 8) then .inr page
  else .inl (m.word (page + 16))

/-- What `free_mem_pool` does with the page that it found. -/
def releaseBlock (m : Memory) (pool : MemPool) (ptr page : ℕ) : Memory × MemPool :=
  if page = 0 then (m, pool)
  else if (int32 (ptr - m.word page)).tmod pool.block_size = 0 then
    (m.storeWord ptr pool.free_ptr,
      { pool with free_ptr := ptr, free_count := int32 (pool.free_count + 1) })
  else (m, pool)

/-- `free_mem_pool`, with a bound on the pages it looks at. -/
def free_mem_pool (fuel : ℕ) (m : Memory) (pool : MemPool) (ptr : ℕ) : Option (Memory × MemPool) :=
  if ptr = 0 then some (m, pool)
  else (Loop.run (findPage m ptr) fuel pool.mm).map (releaseBlock m pool ptr)

/-- `free_mem_pool` returns, and leaves this behind. -/
def Frees (m : Memory) (pool : MemPool) (ptr : ℕ) (after : Memory × MemPool) : Prop :=
  ∃ fuel, free_mem_pool fuel m pool ptr = some after

end LinuxZero.Mem
