import LinuxZero.Lib.Run
import LinuxZero.Mem.MemPage

/-! # The pool of one region

`mm_pool.h` keeps its blocks in one region, with a list of the free ones through their first eight bytes
and the number of them in `m_free_count`. `mem_create` links every block to the one behind it, the last
one to the end of the region, and stores the null that should end the list there; `mem_alloc` looks at the
count only, so that it never follows that last link.
-/

namespace LinuxZero.Mem

/-- `mem_pools_t`. -/
structure MemPools where
  m_block_size : ℤ
  m_free_count : ℤ
  m_block_count : ℤ
  m_free_ptr : ℕ
  m_mem : ℕ
deriving DecidableEq, Repr

/-- `mem_create`, when `malloc` returns `ptr`: the size that `malloc` is asked for, the pointers that
`mem_create` stores, and the pool. The loop is the one of `malloc_mem_page` with one more round. -/
def mem_create (ptr : ℕ) (block_count block_size : ℤ) : ℤ × List (ℕ × ℕ) × MemPools :=
  (int32 (block_count * block_size), linkStores block_size ptr block_count.toNat,
    { m_block_size := block_size
      m_free_count := block_count
      m_block_count := block_count
      m_free_ptr := ptr
      m_mem := ptr })

def mem_alloc (m : Memory) (mem : MemPools) : ℕ × MemPools :=
  if mem.m_free_count = 0 then (0, mem)
  else
    (mem.m_free_ptr,
      { mem with m_free_ptr := m.word mem.m_free_ptr, m_free_count := int32 (mem.m_free_count - 1) })

/-- `mem_free`: the pointers that it stores, and the pool. -/
def mem_free (mem : MemPools) (ptr : ℕ) : List (ℕ × ℕ) × MemPools :=
  if ptr < mem.m_mem ∨ ptrAdd mem.m_mem (int32 (mem.m_free_count * mem.m_block_size)) ≤ ptr then ([], mem)
  else
    ([(ptr, mem.m_free_ptr)],
      { mem with m_free_ptr := ptr, m_free_count := int32 (mem.m_free_count + 1) })

/-- A pool with its memory. `held` lists the blocks that clients have got and not given back, and `stores` the
addresses that the pool has stored links to. -/
structure MmState where
  m : Memory
  mem : MemPools
  held : List ℕ
  stores : List ℕ

inductive MmEvent where
  | alloc
  | free (ptr : ℕ)
  /-- The rest of the process stores bytes. -/
  | write (off : ℕ) (bytes : List UInt8)
deriving DecidableEq, Repr

namespace MmState

/-- The pool that `mem_create` makes in the region. -/
def create (m : Memory) (ptr : ℕ) (block_count block_size : ℤ) : MmState :=
  let (_, stores, mem) := mem_create ptr block_count block_size
  { m := m.storeWords stores, mem := mem, held := [], stores := stores.map Prod.fst }

section Functions

variable (s : MmState)

def alloc : MmState :=
  let (ptr, mem) := mem_alloc s.m s.mem
  { s with mem := mem, held := if ptr = 0 then s.held else ptr :: s.held }

/-- The client does not hold the block any more, whatever `mem_free` does. -/
def free (ptr : ℕ) : MmState :=
  let (stores, mem) := mem_free s.mem ptr
  { m := s.m.storeWords stores, mem := mem, held := s.held.erase ptr,
    stores := s.stores ++ stores.map Prod.fst }

def apply : MmEvent → MmState
  | .alloc => s.alloc
  | .free ptr => s.free ptr
  | .write off bytes => { s with m := s.m.write off bytes }

/-- Blocks are freed by those who hold them, and bytes are stored in held blocks or where there are no blocks. -/
def Enabled (page : Page) (b : ℕ) : MmEvent → Prop
  | .alloc => True
  | .free ptr => ptr ∈ s.held
  | .write off bytes =>
    (∃ block ∈ s.held, block ≤ off ∧ off + bytes.length ≤ block + b) ∨
      off + bytes.length ≤ page.base ∨ page.header b ≤ off

/-- The freed block stands below the end of as many blocks as there are free ones. -/
def BelowFree : MmEvent → Prop
  | .free ptr => (ptr : ℤ) - s.mem.m_mem < int32 (s.mem.m_free_count * s.mem.m_block_size)
  | _ => True

/-- Every block is free or held, and `mem_alloc` returns null only when all of them are held. -/
def Available : Prop :=
  s.mem.m_free_count + s.held.length = s.mem.m_block_count ∧
    ((mem_alloc s.m s.mem).1 = 0 → s.held.length = s.mem.m_block_count)

end Functions

def Step (page : Page) (b : ℕ) (s : MmState) (event : MmEvent) (t : MmState) : Prop :=
  s.Enabled page b event ∧ t = s.apply event

def BelowStep (page : Page) (b : ℕ) (s : MmState) (event : MmEvent) (t : MmState) : Prop :=
  Step page b s event t ∧ s.BelowFree event

end MmState

end LinuxZero.Mem
