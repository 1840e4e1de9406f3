import LinuxZero.Mem.PoolRuns

/-! # Freeing a block that is free

`free_mem_pool` finds out whether a pointer is a block of the pool, and the pool does not record more. A
pointer that no block has is ignored; a block that is free already is put on the list again, which then
never ends.
-/

namespace LinuxZero.Mem

/-- The block is on the free list. -/
def FreeListed (s : PoolState) (ptr : ℕ) : Prop := ∃ free, FreeList s.m s.pool.free_ptr free ∧ ptr ∈ free

/-- Clients may free any pointer that nobody holds, too. -/
def Careless (b : ℕ) (s : PoolState) : PoolEvent → Prop
  | .malloc _ _ => True
  | .free client ptr => (client, ptr) ∈ s.held ∨ ∀ other, (other, ptr) ∉ s.held
  | .write client off bytes => WritesOwn b s client off bytes

/-- The event frees no block that is free already. -/
def NotTwice (s : PoolState) : PoolEvent → Prop
  | .free _ ptr => ¬ FreeListed s ptr
  | _ => True

theorem int32_succ_ne (value : ℤ) : int32 (value + 1) ≠ int32 value := by
  intro equal
  have before : (2 ^ 32 : ℤ) ∣ int32 value - value := Int.dvd_bmod_sub_self
  have after : (2 ^ 32 : ℤ) ∣ int32 (value + 1) - (value + 1) := Int.dvd_bmod_sub_self
  rw [equal] at after
  omega

namespace Consistent

variable {b : ℕ} {s : PoolState} {free : List ℕ} (consistent : Consistent b s free)
include consistent

theorem freeListed_iff {ptr : ℕ} : FreeListed s ptr ↔ ptr ∈ free := by
  constructor
  · rintro ⟨other, list, member⟩
    rwa [Linked.unique consistent.freeList list]
  · exact fun member => ⟨free, consistent.freeList, member⟩

/-- A block that nobody holds is free. -/
theorem mem_blocks_iff_freeListed {ptr : ℕ} (nobody : ∀ client, (client, ptr) ∉ s.held) :
    ptr ∈ s.blocks b ↔ FreeListed s ptr := by
  rw [consistent.freeListed_iff, consistent.mem_blocks]
  exact or_iff_left fun ⟨client, holds⟩ => nobody client holds

theorem held_not_listed {client ptr : ℕ} (holds : (client, ptr) ∈ s.held) : ¬ FreeListed s ptr := by
  rw [consistent.freeListed_iff]
  exact fun listed => List.disjoint_of_nodup_append consistent.nodup listed
    (List.mem_map.mpr ⟨_, holds, rfl⟩)

theorem disciplined {event : PoolEvent} (careless : Careless b s event) (once : NotTwice s event) :
    Disciplined b s event := by
  cases event with
  | malloc client region => trivial
  | free client ptr =>
    rcases careless with holds | nobody
    · exact Or.inl holds
    · exact Or.inr (consistent.foreign_iff.mpr
        ((consistent.mem_blocks_iff_freeListed nobody).not.mpr once))
  | write client off bytes => exact careless

/-- Freeing a pointer that nobody holds changes the pool exactly when it is a free block. -/
theorem ignored_iff {ptr : ℕ} (nobody : ∀ client, (client, ptr) ∉ s.held) :
    (∀ after, Frees s.m s.pool ptr after ↔ after = (s.m, s.pool)) ↔ ¬ FreeListed s ptr := by
  rw [← consistent.mem_blocks_iff_freeListed nobody]
  constructor
  · intro ignored member
    have after := (consistent.frees_iff ptr (s.m, s.pool)).mp ((ignored _).mpr rfl)
    rw [if_pos member] at after
    have count : s.pool.free_count = int32 (s.pool.free_count + 1) :=
      congrArg MemPool.free_count (Prod.mk.inj after).2
    rw [consistent.free_count, int32_add] at count
    exact int32_succ_ne _ count.symm
  · intro outside after
    rw [consistent.frees_iff, if_neg outside]

end Consistent

/-- In runs that free no block twice, a pointer that nobody holds is ignored unless it is a free block, and no
block is held by two clients. -/
theorem free_ignored_iff (b : ℕ) (auto_increment : ℤ)
    (growth : 0 < auto_increment → b * auto_increment + sizeofMemPage < 2 ^ 31) {s t : PoolState}
    {events : List PoolEvent} (created : Created b auto_increment s)
    (run : Run (fun s event t => PoolStep b s event t ∧ Careless b s event ∧ NotTwice s event)
      s events t) :
    (∃ free, Partitioned b t free) ∧ ∀ ptr, (∀ client, (client, ptr) ∉ t.held) →
      ((∀ after, Frees t.m t.pool ptr after ↔ after = (t.m, t.pool)) ↔ ¬ FreeListed t ptr) := by
  have start := Consistent.created created growth
  obtain ⟨free, consistent⟩ := run.invariant (fun t => ∃ free, Consistent b t free)
    (fun s event t ⟨free, consistent⟩ step =>
      Consistent.step ⟨free, consistent⟩ step.1 (consistent.disciplined step.2.1 step.2.2)) start
  exact ⟨⟨free, consistent.partitioned⟩, fun ptr => consistent.ignored_iff⟩

/-- A client frees its block. -/
def freedOnce : List PoolEvent := [.malloc 1 0, .free 1 4096]

def freed : PoolState := freedOnce.foldl PoolState.next smallPool

theorem freed_ignored_iff : (∃ free, Partitioned 64 freed free) ∧
    ∀ ptr, (∀ client, (client, ptr) ∉ freed.held) →
    ((∀ after, Frees freed.m freed.pool ptr after ↔ after = (freed.m, freed.pool)) ↔
      ¬ FreeListed freed ptr) := by
  obtain ⟨free, consistent⟩ := Consistent.created smallPool_created (by decide)
  have promise : smallPool.Promise 64 0 := by decide +kernel
  obtain ⟨free', taken⟩ : ∃ free', Consistent 64 (smallPool.malloc 1 0) free' := consistent.malloc promise
  have holds : (1, 4096) ∈ (smallPool.malloc 1 0).held := by decide +kernel
  refine free_ignored_iff 64 2 (by decide) smallPool_created
    (PoolStep.run_of_replays freedOnce smallPool ?_)
  exact ⟨⟨promise, trivial, trivial⟩,
    ⟨by decide +kernel, Or.inl holds, taken.held_not_listed holds⟩, trivial⟩

/-- A client frees its block twice, and two clients get it. -/
def freedTwice : List PoolEvent := freedOnce ++ [.free 1 4096, .malloc 2 0, .malloc 3 0]

theorem freedTwice_shared :
    (Created 64 2 smallPool ∧ Run (fun s event t => PoolStep 64 s event t ∧ Careless 64 s event)
      smallPool freedTwice
      (freedTwice.foldl PoolState.next smallPool)) ∧
    ((∀ client, (client, 4096) ∉ freed.held) ∧
      ∃ after, Frees freed.m freed.pool 4096 after ∧ after.2.free_count ≠ freed.pool.free_count) ∧
    (2, 4096) ∈ (freedTwice.foldl PoolState.next smallPool).held ∧
    (3, 4096) ∈ (freedTwice.foldl PoolState.next smallPool).held := by
  have nobody : ∀ client, (client, 4096) ∉ freed.held := by
    have empty : freed.held = [] := by decide +kernel
    simp [empty]
  have again : freed.Possible 64 (.free 1 4096) := by decide +kernel
  refine ⟨⟨smallPool_created, PoolStep.run_of_replays freedTwice smallPool ?_⟩, ⟨nobody, ?_⟩,
    by decide +kernel, by decide +kernel⟩
  · exact ⟨⟨by decide +kernel, trivial⟩, ⟨by decide +kernel, Or.inl (by decide +kernel)⟩,
      ⟨again, Or.inr nobody⟩, ⟨by decide +kernel, trivial⟩, ⟨by decide +kernel, trivial⟩, trivial⟩
  · obtain ⟨after, returned⟩ := Option.isSome_iff_exists.mp again
    have count : ((free_mem_pool 2 freed.m freed.pool 4096).map fun after => after.2.free_count) =
      some 3 := by
      decide +kernel
    have fuel : free_mem_pool 2 _ _ 4096 = some after := returned
    rw [fuel] at count
    have three : after.2.free_count = 3 := Option.some.inj count
    refine ⟨after, ⟨2, fuel⟩, ?_⟩
    rw [three]
    decide +kernel

end LinuxZero.Mem
