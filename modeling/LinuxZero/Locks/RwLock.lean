import LinuxZero.Lib.Run
import LinuxZero.Lib.ThreadSum
import Mathlib.Data.Int.Basic

/-! # The reader-writer lock

`sh_rwlock` is one atomic word: -1 for a writer, otherwise the number of readers. Every step is one
atomic operation. A relaxed load may return any value that the word has ever had, and
`compare_exchange_weak` may fail for no reason, but a read-modify-write operation that succeeds works on
the latest value.
-/

namespace LinuxZero.Locks

/-- Where a thread is inside the functions of the lock. -/
inductive LockPhase where
  | idle
  /-- In `lock_read`, before a `load`. -/
  | readLoad
  /-- In `lock_read`, with a value that is not negative; `compare_exchange_weak` is next. -/
  | readExchange (expected : ℤ)
  /-- Holds the lock for reading. -/
  | reading
  /-- In `lock_write`, with `expected = 0`; `compare_exchange_weak` is next. -/
  | writeExchange
  /-- Holds the lock for writing. -/
  | writing
deriving DecidableEq, Repr

/-- The word, the values that it had before, and the threads. -/
structure ShRwlock where
  m_rwlock : ℤ
  earlier : List ℤ
  thread : ℕ → LockPhase

inductive LockEvent where
  | lockRead (t : ℕ)
  /-- `load` returns `value`. -/
  | load (t : ℕ) (value : ℤ)
  /-- `compare_exchange_weak` returns `ok`. -/
  | exchange (t : ℕ) (ok : Bool)
  | unlockRead (t : ℕ)
  | lockWrite (t : ℕ)
  | unlockWrite (t : ℕ)
deriving DecidableEq, Repr

namespace ShRwlock

def initial : ShRwlock where
  m_rwlock := 0
  earlier := []
  thread _ := .idle

section Functions

variable (s : ShRwlock)

def setThread (t : ℕ) (phase : LockPhase) : ShRwlock :=
  { s with thread := Function.update s.thread t phase }

/-- An atomic operation writes the word. -/
def write (value : ℤ) : ShRwlock := { s with m_rwlock := value, earlier := s.m_rwlock :: s.earlier }

/-- `compare_exchange_weak` can succeed when the word has the expected value, and can always fail. -/
def Enabled (n : ℕ) : LockEvent → Prop
  | .lockRead t | .lockWrite t => t < n ∧ s.thread t = .idle
  | .load t value => t < n ∧ s.thread t = .readLoad ∧ value ∈ s.m_rwlock :: s.earlier
  | .exchange t ok => t < n ∧
      ((∃ expected, s.thread t = .readExchange expected ∧ (ok → s.m_rwlock = expected)) ∨
        s.thread t = .writeExchange ∧ (ok → s.m_rwlock = 0))
  | .unlockRead t => t < n ∧ s.thread t = .reading
  | .unlockWrite t => t < n ∧ s.thread t = .writing

/-- A failed `compare_exchange_weak` leaves a value in `expected` that both loops throw away. -/
def apply : LockEvent → ShRwlock
  | .lockRead t => s.setThread t .readLoad
  | .load t value => s.setThread t (if value < 0 then .readLoad else .readExchange value)
  | .exchange t ok =>
    match s.thread t with
    | .readExchange expected =>
      if ok then (s.write ((expected + 1).bmod (2 ^ 32))).setThread t .reading
        else s.setThread t .readLoad
    | .writeExchange => if ok then (s.write (-1)).setThread t .writing else s.setThread t .writeExchange
    | _ => s
  | .unlockRead t => (s.write ((s.m_rwlock - 1).bmod (2 ^ 32))).setThread t .idle
  | .lockWrite t => s.setThread t .writeExchange
  | .unlockWrite t => (s.write 0).setThread t .idle

/-- The number of threads that hold the lock for reading. -/
def readers (n : ℕ) : ℕ := countAt n s.thread .reading

def writers (n : ℕ) : ℕ := countAt n s.thread .writing

end Functions

def Step (n : ℕ) (s : ShRwlock) (event : LockEvent) (t : ShRwlock) : Prop :=
  s.Enabled n event ∧ t = s.apply event

/-- The word counts the readers or stands for the one writer, and nobody tries to exchange a negative value. -/
structure Exclusive (n : ℕ) (s : ShRwlock) : Prop where
  word : s.writers n = 0 ∧ s.m_rwlock = s.readers n ∨ s.writers n = 1 ∧ s.readers n = 0 ∧ s.m_rwlock = -1
  expected : ∀ t < n, ∀ value, s.thread t = .readExchange value → 0 ≤ value

theorem exclusive_initial (n : ℕ) : Exclusive n initial := by
  have nobody : ∀ phase, phase ≠ .idle → countAt n initial.thread phase = 0 := by
    intro phase busy
    rw [countAt_eq_sum]
    exact Finset.sum_eq_zero fun t _ => if_neg fun same => busy same.symm
  refine ⟨Or.inl ⟨nobody .writing (by decide), ?_⟩, fun _ _ _ => nofun⟩
  rw [readers, nobody .reading (by decide)]
  rfl

section Steps

variable {n : ℕ} {s u : ShRwlock} {event : LockEvent}

/-- The values that threads expect after thread `t` has moved. -/
theorem Exclusive.expected_moved (exclusive : Exclusive n s) {t : ℕ} {phase : LockPhase}
    (fits : ∀ value, phase = .readExchange value → 0 ≤ value) :
    ∀ v < n, ∀ value, Function.update s.thread t phase v = .readExchange value → 0 ≤ value := by
  intro v bound value place
  rcases eq_or_ne v t with rfl | differ
  · rw [Function.update_self] at place
    exact fits value place
  · rw [Function.update_of_ne differ] at place
    exact exclusive.expected v bound value place

/-- A step between places without the lock. -/
theorem Exclusive.wander (exclusive : Exclusive n s) {t : ℕ} {phase : LockPhase} (bound : t < n)
    (before : s.thread t ≠ .reading ∧ s.thread t ≠ .writing) (after : phase ≠ .reading ∧ phase ≠ .writing)
    (fits : ∀ value, phase = .readExchange value → 0 ≤ value) : Exclusive n (s.setThread t phase) := by
  have readers := countAt_moved s.thread bound .reading phase
  have writers := countAt_moved s.thread bound .writing phase
  rw [if_neg before.1, if_neg after.1] at readers
  rw [if_neg before.2, if_neg after.2] at writers
  refine ⟨?_, exclusive.expected_moved fits⟩
  simpa only [ShRwlock.readers, ShRwlock.writers, setThread, Nat.add_right_cancel readers,
    Nat.add_right_cancel writers]
    using exclusive.word

/-- The word fits in 32 bits, so adding and subtracting one reader does not wrap. -/
theorem bmod_count {count n : ℕ} (bound : count ≤ n) (few : n < 2 ^ 31) :
    (count : ℤ).bmod (2 ^ 32) = count :=
  Int.bmod_eq_of_le (by omega) (by omega)

/-- `compare_exchange_weak` of `lock_read` succeeds: no writer holds the lock. -/
theorem Exclusive.lock_read (exclusive : Exclusive n s) (few : n < 2 ^ 31) {t : ℕ} {expected : ℤ}
    (bound : t < n) (place : s.thread t = .readExchange expected) (latest : s.m_rwlock = expected) :
    Exclusive n ((s.write ((expected + 1).bmod (2 ^ 32))).setThread t .reading) := by
  have nonneg := exclusive.expected t bound expected place
  obtain ⟨nobody, word⟩ : s.writers n = 0 ∧ s.m_rwlock = s.readers n := by
    rcases exclusive.word with free | ⟨_, _, negative⟩
    · exact free
    · omega
  have room : s.readers n < n := countAt_lt bound (by simp [place])
  have readers := countAt_moved s.thread bound .reading .reading
  have writers := countAt_moved s.thread bound .writing .reading
  simp only [place, reduceCtorEq, if_false, if_true, add_zero] at readers writers
  refine ⟨Or.inl ⟨writers.trans nobody, ?_⟩, exclusive.expected_moved nofun⟩
  change (expected + 1).bmod (2 ^ 32) = (countAt n (Function.update s.thread t .reading) .reading : ℕ)
  rw [readers, ← latest, word]
  exact bmod_count room few

/-- `compare_exchange_weak` of `lock_write` succeeds: nobody holds the lock. -/
theorem Exclusive.lock_write (exclusive : Exclusive n s) {t : ℕ} (bound : t < n)
    (place : s.thread t = .writeExchange) (latest : s.m_rwlock = 0) :
    Exclusive n ((s.write (-1)).setThread t .writing) := by
  obtain ⟨nobody, word⟩ : s.writers n = 0 ∧ s.m_rwlock = s.readers n := by
    rcases exclusive.word with free | ⟨_, _, negative⟩
    · exact free
    · omega
  have readers := countAt_moved s.thread bound .reading .writing
  have writers := countAt_moved s.thread bound .writing .writing
  simp only [place, reduceCtorEq, if_false, if_true, add_zero] at readers writers
  refine ⟨Or.inr ⟨?_, ?_, rfl⟩, exclusive.expected_moved nofun⟩
  · exact writers.trans (congrArg (· + 1) nobody)
  · have empty : s.readers n = 0 := by omega
    exact readers.trans empty

theorem Exclusive.unlock_read (exclusive : Exclusive n s) (few : n < 2 ^ 31) {t : ℕ} (bound : t < n)
    (place : s.thread t = .reading) :
    Exclusive n ((s.write ((s.m_rwlock - 1).bmod (2 ^ 32))).setThread t .idle) := by
  have holds : 0 < s.readers n := countAt_pos bound place
  obtain ⟨nobody, word⟩ : s.writers n = 0 ∧ s.m_rwlock = s.readers n := by
    rcases exclusive.word with shared | ⟨_, none, _⟩
    · exact shared
    · omega
  have most : s.readers n ≤ n := countAt_le ..
  have readers := countAt_moved s.thread bound .reading .idle
  have writers := countAt_moved s.thread bound .writing .idle
  simp only [place, reduceCtorEq, if_false, if_true, add_zero] at readers writers
  refine ⟨Or.inl ⟨writers.trans nobody, ?_⟩, exclusive.expected_moved nofun⟩
  change (s.m_rwlock - 1).bmod (2 ^ 32) = (countAt n (Function.update s.thread t .idle) .reading : ℕ)
  have less : s.m_rwlock - 1 = (countAt n (Function.update s.thread t .idle) .reading : ℕ) := by
    rw [word, ShRwlock.readers]
    omega
  rw [less]
  exact bmod_count (countAt_le ..) few

theorem Exclusive.unlock_write (exclusive : Exclusive n s) {t : ℕ} (bound : t < n)
    (place : s.thread t = .writing) :
    Exclusive n ((s.write 0).setThread t .idle) := by
  have holds : 0 < s.writers n := countAt_pos bound place
  obtain ⟨one, none, _⟩ : s.writers n = 1 ∧ s.readers n = 0 ∧ s.m_rwlock = -1 := by
    rcases exclusive.word with ⟨nobody, _⟩ | held
    · omega
    · exact held
  have readers := countAt_moved s.thread bound .reading .idle
  have writers := countAt_moved s.thread bound .writing .idle
  simp only [place, reduceCtorEq, if_false, if_true, add_zero] at readers writers
  refine ⟨Or.inl ⟨?_, ?_⟩, exclusive.expected_moved nofun⟩
  · exact Nat.add_right_cancel (writers.trans (one.trans (zero_add 1).symm))
  · exact congrArg Nat.cast (readers.trans none).symm

theorem Exclusive.step (exclusive : Exclusive n s) (few : n < 2 ^ 31) (step : Step n s event u) :
    Exclusive n u := by
  obtain ⟨enabled, rfl⟩ := step
  cases event with
  | lockRead t | lockWrite t =>
    obtain ⟨bound, place⟩ := enabled
    exact exclusive.wander bound (by simp [place]) (by decide) nofun
  | load t value =>
    obtain ⟨bound, place, _⟩ := enabled
    refine exclusive.wander bound (by simp [place]) ?_ ?_
    · split_ifs <;> exact ⟨nofun, nofun⟩
    · intro expected
      split_ifs with negative
      · nofun
      · rintro ⟨⟩
        exact Int.not_lt.mp negative
  | exchange t ok =>
    obtain ⟨bound, ⟨expected, place, latest⟩ | ⟨place, latest⟩⟩ := enabled
    · simp only [apply, place]
      cases ok with
      | true => exact exclusive.lock_read few bound place (latest rfl)
      | false => exact exclusive.wander bound (by simp [place]) (by decide) nofun
    · simp only [apply, place]
      cases ok with
      | true => exact exclusive.lock_write bound place (latest rfl)
      | false => exact exclusive.wander bound (by simp [place]) (by decide) nofun
  | unlockRead t => exact exclusive.unlock_read few enabled.1 enabled.2
  | unlockWrite t => exact exclusive.unlock_write enabled.1 enabled.2

/-- The word is -1 exactly while one thread holds the lock for writing, and counts the readers otherwise; a
writer is alone. -/
theorem rwlock_excludes (few : n < 2 ^ 31) {events : List LockEvent}
    (run : Run (Step n) initial events s) :
    (s.m_rwlock = -1 ↔ s.writers n = 1) ∧ (s.writers n ≠ 1 → s.m_rwlock = s.readers n) ∧
      ∀ t < n, s.thread t = .writing → ∀ u < n, u ≠ t →
        s.thread u ≠ .reading ∧ s.thread u ≠ .writing := by
  have exclusive : Exclusive n s :=
    run.invariant (Exclusive n) (fun _ _ _ exclusive step => exclusive.step few step)
      (exclusive_initial n)
  refine ⟨?_, ?_, ?_⟩
  · rcases exclusive.word with ⟨nobody, word⟩ | ⟨one, _, word⟩ <;> omega
  · intro shared
    exact (exclusive.word.resolve_right fun held => shared held.1).2
  · intro t bound writes u below other
    have holds : 0 < s.writers n := countAt_pos bound writes
    obtain ⟨one, none, _⟩ := exclusive.word.resolve_left fun free => by omega
    exact ⟨ne_of_countAt_zero none below,
      fun writes' => other (eq_of_countAt_one one below writes' bound writes)⟩

end Steps

/-- Thread 0 reads while thread 1 tries to write; when the lock is free again, thread 1 gets it. -/
def readThenWrite : List LockEvent :=
  [.lockRead 0, .load 0 0, .lockWrite 1, .exchange 0 false, .load 0 0, .exchange 0 true,
    .exchange 1 false, .unlockRead 0, .exchange 1 true, .lockRead 0, .load 0 1, .exchange 0 false]

theorem readThenWrite_excludes : ∃ s, Run (Step 2) initial readThenWrite s ∧
    (s.m_rwlock = -1 ↔ s.writers 2 = 1) ∧ s.m_rwlock = -1 := by
  have replays : Run.Replays (fun s => Enabled s 2) apply initial readThenWrite := by
    refine ⟨⟨by decide, rfl⟩, ⟨by decide, rfl, by decide⟩, ⟨by decide, rfl⟩,
      ⟨by decide, Or.inl ⟨0, rfl, nofun⟩⟩, ⟨by decide, rfl, by decide⟩,
      ⟨by decide, Or.inl ⟨0, rfl, fun _ => rfl⟩⟩, ⟨by decide, Or.inr ⟨rfl, nofun⟩⟩,
      ⟨by decide, rfl⟩, ⟨by decide, Or.inr ⟨rfl, fun _ => rfl⟩⟩, ⟨by decide, rfl⟩,
      ⟨by decide, rfl, by decide⟩, ⟨by decide, Or.inl ⟨1, rfl, nofun⟩⟩, trivial⟩
  have run := Run.of_replays readThenWrite _ replays
  exact ⟨_, run, (rwlock_excludes (show 2 < 2 ^ 31 by decide) run).1, rfl⟩

end ShRwlock

end LinuxZero.Locks
