import LinuxZero.Pools.PoolDestruction

/-! # Creation of the thread pool and its rollback

`sh_create_thread_pool` acquires what the pool is made of and starts the workers; when a call fails it
releases what it has. When `pthread_create` fails, `init_threads` joins the workers that are already
running, without having told them to stop: `quit` is still 0, and they go to sleep on the empty queue.
-/

namespace LinuxZero.Pools

/-- The worker is in its loop, and not about to leave it. -/
def WorkerPhase.Inside (phase : WorkerPhase) : Prop := phase ≠ exited ∧ phase ≠ leave

instance (phase : WorkerPhase) : Decidable phase.Inside := inferInstanceAs (Decidable (_ ∧ _))

/-- Where the thread is inside `sh_create_thread_pool` and `init_threads`. -/
inductive CreatePhase where
  | mallocPool
  | createQueue
  | mutexInit
  | condInit
  | setQuit
  | attrInit
  | mallocThreads
  /-- At the head of the loop of `init_threads`. -/
  | create (i : ℕ)
  /-- `pool->th_count = i` is next. -/
  | setCount (i : ℕ)
  | attrDestroy (i : ℕ)
  /-- At the head of the loop that joins the threads below `i`. -/
  | join (j i : ℕ)
  | freeThreads
  | condDestroy
  | mutexDestroy
  | drain (phase : DrainPhase)
  | freePool
  | returned (created : Bool)
deriving DecidableEq, Repr

namespace CreatePhase

/-- What has been acquired when every call but `pthread_create` succeeds. -/
def acquires : CreatePhase → List PoolResource
  | mallocPool => []
  | createQueue => [.pool]
  | mutexInit => [.pool, .spinlock, .queue]
  | condInit => [.pool, .spinlock, .queue, .mutex]
  | setQuit | attrInit => [.pool, .spinlock, .queue, .mutex, .cond]
  | mallocThreads => [.pool, .spinlock, .queue, .mutex, .cond, .attr]
  | _ => [.pool, .spinlock, .queue, .mutex, .cond, .attr, .threads]

/-- What has been released by then. -/
def releases : CreatePhase → List PoolResource
  | join _ _ | freeThreads => [.attr]
  | condDestroy => [.attr, .threads]
  | mutexDestroy => [.attr, .threads, .cond]
  | drain .freeQueue => [.attr, .threads, .cond, .mutex, .spinlock]
  | drain _ => [.attr, .threads, .cond, .mutex]
  | freePool => [.attr, .threads, .cond, .mutex, .spinlock, .queue]
  | returned _ => [.attr, .threads, .cond, .mutex, .spinlock, .queue, .pool]
  | _ => []

/-- The steps that are left when no worker was started. -/
def rank : CreatePhase → ℕ
  | mallocPool => 18
  | createQueue => 17
  | mutexInit => 16
  | condInit => 15
  | setQuit => 14
  | attrInit => 13
  | mallocThreads => 12
  | create _ => 11
  | setCount _ => 10
  | attrDestroy _ => 9
  | join _ _ => 8
  | freeThreads => 7
  | condDestroy => 6
  | mutexDestroy => 5
  | drain .pop => 4
  | drain .spinDestroy => 3
  | drain .freeQueue => 2
  | freePool => 1
  | drain (.free _) | returned _ => 0

/-- The queue has not been created yet. -/
def BeforeQueue : CreatePhase → Prop
  | mallocPool | createQueue => True
  | _ => False

/-- `pool->quit` has not been set yet. -/
def BeforeQuit : CreatePhase → Prop
  | mallocPool | createQueue | mutexInit | condInit | setQuit => True
  | _ => False

/-- Where the creator can be when `pthread_create` fails at index `k`, and how many workers have been started. -/
def Reachable (k started : ℕ) : CreatePhase → Prop
  | mallocPool | createQueue | mutexInit | condInit | setQuit | attrInit | mallocThreads => started = 0
  | create i => i ≤ k ∧ started = i
  | setCount i | attrDestroy i => i = k ∧ started = k
  | join j i => j = 0 ∧ i = k ∧ started = k
  | drain (.free _) | returned true => False
  | _ => k = 0 ∧ started = 0

end CreatePhase

/-- A pool with the thread that creates it; `started` workers have been started. -/
structure PoolCreation where
  pool : ThreadPool
  count : ℤ
  creator : CreatePhase
  started : ℕ
  joined : List ℕ
  acquired : List PoolResource
  released : List PoolResource

inductive CreateEvent where
  /-- A step of a worker. -/
  | worker (event : PoolEvent)
  /-- The next step of `sh_create_thread_pool`; `ok` tells whether the call that it makes succeeds. -/
  | creator (ok : Bool)
deriving DecidableEq

namespace PoolCreation

/-- `sh_create_thread_pool` is called; `pool` is what stands in the memory that it will get. -/
def start (pool : ThreadPool) (count : ℤ) : PoolCreation where
  pool := pool
  count := count
  creator := if count ≤ 0 then .returned false else .mallocPool
  started := 0
  joined := []
  acquired := []
  released := []

section Functions

variable (s : PoolCreation)

def acquire (resources : List PoolResource) (next : CreatePhase) : PoolCreation :=
  { s with acquired := s.acquired ++ resources, creator := next }

def release (resources : List PoolResource) (next : CreatePhase) : PoolCreation :=
  { s with released := s.released ++ resources, creator := next }

/-- The next step of `sh_create_thread_pool`; `queue` is the address that `sh_create_task_queue` gets. -/
def sh_create_thread_pool (queue : ℕ) (ok : Bool) : PoolCreation :=
  match s.creator with
  | .mallocPool => if ok then s.acquire [.pool] .createQueue else { s with creator := .returned false }
  | .createQueue =>
    if ok then
      { s.acquire [.spinlock, .queue] .mutexInit with
        pool := { s.pool with task_queue := .sh_create_task_queue s.pool.task_queue.mem queue } }
    else { s with creator := .freePool }
  | .mutexInit =>
    if ok then { s.acquire [.mutex] .condInit with pool := { s.pool with mutex := none } }
    else { s with creator := .drain .pop }
  | .condInit => if ok then s.acquire [.cond] .setQuit else { s with creator := .mutexDestroy }
  | .setQuit => { s with pool := { s.pool with quit := 0 }, creator := .attrInit }
  | .attrInit => if ok then s.acquire [.attr] .mallocThreads else { s with creator := .condDestroy }
  | .mallocThreads => if ok then s.acquire [.threads] (.create 0) else { s with creator := .condDestroy }
  | .create i =>
    if i < s.count then
      if ok then { s with pool := s.pool.setWorker i .test, started := i + 1, creator := .create (i + 1) }
      else { s with creator := .setCount i }
    else { s with creator := .setCount i }
  | .setCount i => { s with pool := { s.pool with th_count := i }, creator := .attrDestroy i }
  | .attrDestroy i => s.release [.attr] (if i = s.count then .returned true else .join 0 i)
  | .join j i =>
    if j < i then { s with joined := s.joined ++ [j], creator := .join (j + 1) i }
      else { s with creator := .freeThreads }
  | .freeThreads => s.release [.threads] .condDestroy
  | .condDestroy => s.release [.cond] .mutexDestroy
  | .mutexDestroy => s.release [.mutex] (.drain .pop)
  | .drain phase =>
    let (queue, next) := sh_destory_task_queue s.pool.task_queue phase
    { s.release phase.releases (next.elim .freePool .drain) with
    pool := { s.pool with task_queue := queue } }
  | .freePool => s.release [.pool] (.returned false)
  | .returned _ => s

/-- Workers that have been started run; `pthread_join` waits for its thread. -/
def Enabled : CreateEvent → Prop
  | .worker event => (∃ w, event.Of w) ∧ ThreadPool.Enabled { s.pool with th_count := s.started } event
  | .creator _ =>
    match s.creator with
    | .returned _ => False
    | .join j i => j < i → s.pool.worker j = .exited
    | _ => True

def apply (queue : ℕ) : CreateEvent → PoolCreation
  | .worker event => { s with pool := s.pool.apply event }
  | .creator ok => s.sh_create_thread_pool queue ok

/-- Every call succeeds, except for `pthread_create` at index `k`. -/
def FailsAt (k : ℕ) : CreateEvent → Prop
  | .worker _ => True
  | .creator ok => ok = true ↔ s.creator ≠ .create k

/-- The creator waits for a thread, and every worker that has not ended waits for a signal. -/
def Stuck : Prop :=
  (∃ j i, s.creator = .join j i ∧ j < i ∧ s.pool.worker j ≠ .exited) ∧
    ∀ w < s.started, s.pool.worker w = .exited ∨ s.pool.worker w = .blocked

/-- The call has returned null, every thread was joined and every resource was released once. -/
def RolledBack : Prop :=
  s.creator = .returned false ∧ s.joined = List.range s.started ∧ s.acquired.Nodup ∧
    s.released.Perm s.acquired

end Functions

/-- A step of a call in which `pthread_create` fails at index `k`. -/
def Step (queue k : ℕ) (s : PoolCreation) (event : CreateEvent) (t : PoolCreation) : Prop :=
  (s.Enabled event ∧ t = s.apply queue event) ∧ s.FailsAt k event

/-- Whatever the workers do, the creator does not wait for sleepers, and it can go on until it returns null
with everything released. -/
def RollsBack (pool : ThreadPool) (queue : ℕ) (count : ℤ) (k : ℕ) : Prop :=
  ∀ events s, Run (Step queue k) (start pool count) events s →
    ¬ s.Stuck ∧ (∀ created, s.creator = .returned created → s.RolledBack) ∧
      ∃ later t, Run (Step queue k) s later t ∧ t.RolledBack

/-- What holds in every call in which `pthread_create` fails at index `k`: no worker ever ends, so that the
creator gets past its joins only if there is none. -/
structure Failing (k : ℕ) (s : PoolCreation) : Prop where
  count : k < s.count
  place : s.creator.Reachable k s.started
  quit : s.creator.BeforeQuit ∨ s.pool.quit = 0
  workers : ∀ w < s.started, (s.pool.worker w).Inside
  empty : s.creator.BeforeQueue ∨ 0 < s.started ∨ s.pool.task_queue.popResult = none
  joined : s.joined = []
  acquired : s.acquired = s.creator.acquires
  released : s.released = s.creator.releases

section Calls

variable {s t : PoolCreation} {queue k : ℕ} {event : CreateEvent}

theorem failing_start (pool : ThreadPool) {count : ℤ} (fails : k < count) :
    Failing k (start pool count) := by
  have positive : ¬ count ≤ 0 := by omega
  refine ⟨fails, ?_, ?_, nofun, ?_, rfl, ?_, ?_⟩ <;> simp only [start, if_neg positive]
  · rfl
  · exact Or.inl trivial
  · exact Or.inl trivial
  · rfl
  · rfl

/-- A worker goes on looking for tasks while `quit` is 0. -/
theorem stays {pool : ThreadPool} (quit : pool.quit = 0) {event : PoolEvent} (own : ∃ w, event.Of w)
    (runs : ∀ v, event = .done v → ∃ task, pool.worker v = .run task) {w : ℕ}
    (inside : (pool.worker w).Inside) :
    ((pool.apply event).worker w).Inside := by
  have moved : ∀ {v : ℕ} {phase : WorkerPhase}, phase.Inside →
    (Function.update pool.worker v phase w).Inside := by
    intro v phase other
    rcases eq_or_ne w v with rfl | differ
    · rwa [Function.update_self]
    · rwa [Function.update_of_ne differ]
  cases event with
  | worker v =>
    change ((pool.thread_work v).worker w).Inside
    cases phase : pool.worker v with
    | test | check =>
      simp only [ThreadPool.thread_work, phase, ThreadPool.setWorker, quit]
      exact moved (by decide)
    | lock | wait | woken | unlock =>
      simp only [ThreadPool.thread_work, phase, ThreadPool.setWorker]
      exact moved (by decide)
    | leave =>
      rcases eq_or_ne w v with rfl | differ
      · exact absurd phase inside.2
      · rwa [PoolDestruction.thread_work_worker pool differ]
    | pop | run | blocked | exited => simpa only [ThreadPool.thread_work, phase] using inside
  | pop v result => exact moved (by cases result <;> exact ⟨by rintro ⟨⟩, by rintro ⟨⟩⟩)
  | done v =>
    obtain ⟨task, phase⟩ := runs v rfl
    simp only [ThreadPool.apply, phase]
    exact moved (by decide)
  | spurious v => exact moved (by decide)
  | malloc | mallocFails | store | push | signal | other => exact own.elim fun _ impossible =>
      impossible.elim

theorem apply_quit (pool : ThreadPool) (event : PoolEvent) : (pool.apply event).quit = pool.quit := by
  cases event with
  | worker w => exact PoolDestruction.thread_work_quit pool w
  | done w =>
    simp only [ThreadPool.apply]
    split <;> rfl
  | _ => rfl

theorem Failing.worker (failing : Failing k s) {event : PoolEvent} (enabled : s.Enabled (.worker event)) :
    Failing k (s.apply queue (.worker event)) := by
  obtain ⟨⟨w, own⟩, possible⟩ := enabled
  have bound : w < s.started := by
    cases event with
    | worker v | pop v | done v | spurious v => exact (show v = w from own) ▸ possible.1
    | malloc | mallocFails | store | push | signal | other => exact own.elim
  have late : ¬ s.creator.BeforeQuit := by
    have place := failing.place
    intro early
    cases phase : s.creator <;> rw [phase] at early place <;>
      first | exact early | exact Nat.not_lt_zero w (place ▸ bound)
  have quit := failing.quit.resolve_left late
  have runs : ∀ v, event = .done v → ∃ task, s.pool.worker v = .run task := by
    rintro v rfl
    obtain ⟨_, task, phase, _⟩ := possible
    exact ⟨task, phase⟩
  refine { failing with
    quit := Or.inr ((apply_quit s.pool event).trans quit), workers := ?_, empty := ?_ }
  · exact fun v below => stays quit ⟨w, own⟩ runs (failing.workers v below)
  · exact Or.inr (Or.inl (Nat.zero_lt_of_lt bound))

theorem popResult_create (mem : ℕ → ℕ) (queue : ℕ) :
    (TaskQueue.sh_create_task_queue mem queue).popResult = none :=
  (TaskQueue.inv_create mem queue).represents.popResult_eq

/-- Taking from an empty queue leaves it empty. -/
theorem popResult_drained {q : TaskQueue} (empty : q.popResult = none) :
    (q.apply (.pop q.popResult)).popResult = none := by
  have null : q.head = 0 := by
    by_contra head
    rw [TaskQueue.popResult, if_pos head] at empty
    contradiction
  simp only [TaskQueue.apply, empty, TaskQueue.popLink, if_neg (not_not_intro null)]

/-- `pthread_create` succeeds up to the index `k`, and fails there. -/
theorem Failing.create_step (failing : Failing k s) {ok : Bool} {i : ℕ} (phase : s.creator = .create i)
    (fails : s.FailsAt k (.creator ok)) : Failing k (s.sh_create_thread_pool queue ok) := by
  obtain ⟨count, place, quit, workers, empty, joined, acquired, released⟩ := failing
  simp only [phase] at place quit empty acquired released
  obtain ⟨bound, started⟩ := place
  have zero := quit.resolve_left id
  have more : (i : ℤ) < s.count := by omega
  simp only [sh_create_thread_pool, phase, if_pos more]
  rcases bound.lt_or_eq with less | rfl
  · have success : ok = true := fails.mpr (by simp [phase, less.ne])
    simp only [success, if_true]
    refine ⟨count, ⟨less, rfl⟩, Or.inr zero, ?_, Or.inr (Or.inl (Nat.succ_pos i)), joined,
      acquired, released⟩
    intro w below
    rcases eq_or_ne w i with rfl | differ
    · simp only [ThreadPool.setWorker, Function.update_self]
      decide
    · simp only [ThreadPool.setWorker, Function.update_of_ne differ]
      exact workers w (started ▸ lt_of_le_of_ne (Nat.lt_succ_iff.mp below) differ)
  · have failure : ok = false := by
      rw [← Bool.not_eq_true]
      exact fun success => fails.mp success phase
    subst failure
    exact ⟨count, ⟨rfl, started⟩, Or.inr zero, workers, Or.inr (empty.resolve_left id), joined,
      acquired, released⟩

/-- A worker that has been started never returns, so the joins end only if none has been. -/
theorem Failing.join_step (failing : Failing k s) {ok : Bool} {i j : ℕ} (phase : s.creator = .join j i)
    (enabled : s.Enabled (.creator ok)) : Failing k (s.sh_create_thread_pool queue ok) := by
  obtain ⟨count, place, quit, workers, empty, joined, acquired, released⟩ := failing
  have waits := enabled
  simp only [Enabled, phase] at waits
  simp only [phase] at place quit empty acquired released
  obtain ⟨rfl, rfl, started⟩ := place
  have nobody : i = 0 := by
    by_contra positive
    have below : 0 < s.started := by omega
    exact (workers 0 below).1 (waits (by omega))
  subst nobody
  simp only [sh_create_thread_pool, phase, lt_irrefl, if_false]
  exact ⟨count, ⟨rfl, started⟩, Or.inr (quit.resolve_left id), workers,
    Or.inr (empty.resolve_left id), joined, acquired, released⟩

/-- The queue that is destroyed is empty. -/
theorem Failing.drain_step (failing : Failing k s) {ok : Bool} {drain : DrainPhase}
    (phase : s.creator = .drain drain) :
    Failing k (s.sh_create_thread_pool queue ok) := by
  obtain ⟨count, place, quit, workers, empty, joined, acquired, released⟩ := failing
  simp only [phase] at place quit empty acquired released
  cases drain with
  | free task => exact place.elim
  | pop =>
    have none := (empty.resolve_left id).resolve_left (by rw [place.2]; exact lt_irrefl 0)
    have drained := popResult_drained none
    rw [none] at drained
    simp only [sh_create_thread_pool, phase, sh_destory_task_queue, none]
    exact ⟨count, place, Or.inr (quit.resolve_left id), workers, Or.inr (Or.inr drained),
      joined, acquired, by simp [release, released, DrainPhase.releases, CreatePhase.releases]⟩
  | spinDestroy | freeQueue =>
    simp only [sh_create_thread_pool, phase, sh_destory_task_queue]
    exact ⟨count, place, Or.inr (quit.resolve_left id), workers, Or.inr (empty.resolve_left id),
      joined, acquired, by simp [release, released, DrainPhase.releases, CreatePhase.releases]⟩

theorem Failing.creator_step (failing : Failing k s) {ok : Bool} (enabled : s.Enabled (.creator ok))
    (fails : s.FailsAt k (.creator ok)) : Failing k (s.sh_create_thread_pool queue ok) := by
  have ⟨count, place, quit, workers, empty, joined, acquired, released⟩ := failing
  cases phase : s.creator with
  | returned created => simp [Enabled, phase] at enabled
  | mallocPool | createQueue | mutexInit | condInit =>
    have success : ok = true := fails.mpr (by simp [phase])
    simp only [phase] at place empty acquired released
    simp only [sh_create_thread_pool, phase, success, if_true]
    refine ⟨count, place, Or.inl trivial, workers, ?_, joined,
      by simp [acquire, acquired, CreatePhase.acquires], released⟩
    first
      | exact Or.inl trivial
      | exact Or.inr (empty.resolve_left id)
      | exact Or.inr (Or.inr (popResult_create ..))
  | setQuit =>
    simp only [phase] at place empty acquired released
    simp only [sh_create_thread_pool, phase]
    exact ⟨count, place, Or.inr rfl, workers, Or.inr (empty.resolve_left id), joined, acquired, released⟩
  | attrInit | mallocThreads =>
    have success : ok = true := fails.mpr (by simp [phase])
    simp only [phase] at place quit empty acquired released
    simp only [sh_create_thread_pool, phase, success, if_true]
    refine ⟨count, ?_, Or.inr (quit.resolve_left id), workers, Or.inr (empty.resolve_left id), joined,
      by simp [acquire, acquired, CreatePhase.acquires], released⟩
    first
      | exact place
      | exact ⟨Nat.zero_le k, place⟩
  | create i => exact failing.create_step phase fails
  | setCount i =>
    simp only [phase] at place quit empty acquired released
    simp only [sh_create_thread_pool, phase]
    exact ⟨count, place, Or.inr (quit.resolve_left id), workers, Or.inr (empty.resolve_left id),
      joined, acquired, released⟩
  | attrDestroy i =>
    simp only [phase] at place quit empty acquired released
    obtain ⟨rfl, started⟩ := place
    have short : (i : ℤ) ≠ s.count := by omega
    simp only [sh_create_thread_pool, phase, if_neg short]
    exact ⟨count, ⟨rfl, rfl, started⟩, Or.inr (quit.resolve_left id), workers,
      Or.inr (empty.resolve_left id), joined, acquired,
      by simp [release, released, CreatePhase.releases]⟩
  | join j i => exact failing.join_step phase enabled
  | freeThreads | condDestroy | mutexDestroy | freePool =>
    simp only [phase] at place quit empty acquired released
    simp only [sh_create_thread_pool, phase]
    exact ⟨count, place, Or.inr (quit.resolve_left id), workers, Or.inr (empty.resolve_left id),
      joined, acquired, by simp [release, released, CreatePhase.releases]⟩
  | drain drain => exact failing.drain_step phase

theorem Failing.step (failing : Failing k s) (step : Step queue k s event t) : Failing k t := by
  obtain ⟨⟨enabled, rfl⟩, fails⟩ := step
  cases event with
  | worker event => exact failing.worker enabled
  | creator ok => exact failing.creator_step enabled fails

/-- When the first `pthread_create` fails, the creator can always go on. -/
theorem Failing.advances (failing : Failing 0 s) (queue : ℕ)
    (inside : ∀ created, s.creator ≠ .returned created) :
    ∃ ok t, Step queue 0 s (.creator ok) t ∧ t.creator.rank < s.creator.rank := by
  have enabled : ∀ ok, s.Enabled (.creator ok) := by
    intro ok
    have place := failing.place
    cases phase : s.creator with
    | returned created => exact absurd phase (inside created)
    | join j i =>
      rw [phase] at place
      simp only [Enabled, phase, place.1, place.2.1]
      exact fun impossible => absurd impossible (lt_irrefl 0)
    | _ => simp [Enabled, phase]
  obtain ⟨ok, fails⟩ : ∃ ok, s.FailsAt 0 (.creator ok) :=
    ⟨decide (s.creator ≠ .create 0), by simp [FailsAt]⟩
  refine ⟨ok, _, ⟨⟨enabled ok, rfl⟩, fails⟩, ?_⟩
  have place := failing.place
  have count := failing.count
  change (s.sh_create_thread_pool queue ok).creator.rank < _
  cases phase : s.creator with
  | returned created => exact absurd phase (inside created)
  | mallocPool | createQueue | mutexInit | condInit | attrInit | mallocThreads =>
    have success : ok = true := fails.mpr (by simp [phase])
    simp [sh_create_thread_pool, phase, success, acquire, CreatePhase.rank]
  | create i =>
    rw [phase] at place
    obtain rfl : i = 0 := Nat.le_zero.mp place.1
    have failure : ok = false := by
      rw [← Bool.not_eq_true]
      exact fun success => fails.mp success phase
    simp [sh_create_thread_pool, phase, failure, CreatePhase.rank]
  | attrDestroy i =>
    rw [phase] at place
    obtain rfl : i = 0 := place.1
    simp only [sh_create_thread_pool, phase, if_neg count.ne, release]
    decide
  | join j i =>
    rw [phase] at place
    obtain ⟨rfl, rfl, _⟩ := place
    simp [sh_create_thread_pool, phase, CreatePhase.rank]
  | drain drain =>
    rw [phase] at place
    cases drain with
    | free task => exact place.elim
    | pop =>
      have empty := failing.empty
      rw [phase, place.2] at empty
      have none := (empty.resolve_left id).resolve_left (lt_irrefl 0)
      simp [sh_create_thread_pool, phase, sh_destory_task_queue, none, release, CreatePhase.rank]
    | spinDestroy | freeQueue => simp [sh_create_thread_pool, phase, sh_destory_task_queue, release,
        CreatePhase.rank]
  | setQuit | setCount | freeThreads | condDestroy | mutexDestroy | freePool =>
    simp [sh_create_thread_pool, phase, release, CreatePhase.rank]

theorem Failing.rolledBack (failing : Failing k s) {created : Bool}
    (returned : s.creator = .returned created) :
    s.RolledBack := by
  have place := failing.place
  have joined := failing.joined
  have acquired := failing.acquired
  have released := failing.released
  rw [returned] at place acquired released
  cases created with
  | true => exact place.elim
  | false =>
    refine ⟨returned, ?_, ?_, ?_⟩
    · rw [joined, place.2]
      rfl
    · rw [acquired]
      decide
    · rw [acquired, released]
      decide

theorem Failing.completes (failing : Failing 0 s) : ∃ later t, Run (Step queue 0) s later t ∧
    t.RolledBack := by
  induction left : s.creator.rank using Nat.strong_induction_on generalizing s with
  | _ left ih =>
    by_cases ended : ∃ created, s.creator = .returned created
    · obtain ⟨created, returned⟩ := ended
      exact ⟨[], s, .start, failing.rolledBack returned⟩
    · obtain ⟨ok, t, step, closer⟩ := failing.advances queue fun created same => ended ⟨created, same⟩
      obtain ⟨later, u, run, done⟩ := ih _ (left ▸ closer) (failing.step step) rfl
      exact ⟨_, u, .cons step run, done⟩

/-- With a worker that has been started, the creator never gets past its joins. -/
theorem Failing.not_returned (failing : Failing k s) (positive : 0 < k) :
    ∀ created, s.creator ≠ .returned created := by
  intro created returned
  have place := failing.place
  rw [returned] at place
  cases created with
  | true => exact place
  | false => exact positive.ne' place.1

theorem failing_run (pool : ThreadPool) {count : ℤ} (fails : k < count) {events : List CreateEvent}
    (run : Run (Step queue k) (start pool count) events s) : Failing k s :=
  run.invariant (Failing k) (fun _ _ _ failing step => failing.step step) (failing_start pool fails)

/-- What a worker does on an empty queue: it looks for a task, and waits. -/
def fallsAsleep (w : ℕ) : List CreateEvent :=
  [.worker (.worker w), .worker (.pop w none), .worker (.worker w), .worker (.worker w),
    .worker (.worker w)]

theorem falls_asleep (queue : ℕ) {w : ℕ} (bound : w < s.started) (test : s.pool.worker w = .test)
    (quit : s.pool.quit = 0) (free : s.pool.mutex = none)
    (empty : s.pool.task_queue.popResult = none) :
    ∃ t, Run (Step queue k) s (fallsAsleep w) t ∧ t.creator = s.creator ∧ t.started = s.started ∧
    t.pool.quit = 0 ∧
      t.pool.mutex = none ∧ t.pool.task_queue.popResult = none ∧
      t.pool.worker = Function.update s.pool.worker w .blocked := by
  have replays : Run.Replays (fun s event => s.Enabled event ∧ s.FailsAt k event)
    (fun s => s.apply queue) s
      (fallsAsleep w) := by
    simp [fallsAsleep, Run.Replays, Enabled, FailsAt, apply, ThreadPool.Enabled, ThreadPool.apply,
      ThreadPool.thread_work, ThreadPool.setWorker, ThreadPool.afterPop, TaskQueue.Enabled,
      PoolEvent.Of, test, quit, free, empty, bound]
  refine ⟨_, Run.of_replays_guarded (fallsAsleep w) s replays, ?_⟩
  have drained := popResult_drained empty
  rw [empty] at drained
  simp [fallsAsleep, apply, ThreadPool.apply, ThreadPool.thread_work, ThreadPool.setWorker,
    ThreadPool.afterPop, test, quit, drained]

/-- The steps up to the loop of `init_threads`. -/
theorem reaches_loop (queue : ℕ) (pool : ThreadPool) {count : ℤ} (fails : k < count) :
    ∃ s, Run (Step queue k) (start pool count) (List.replicate 7 (.creator true)) s ∧
    s.creator = .create 0 ∧
      s.pool.mutex = none ∧ s.pool.task_queue.popResult = none := by
  have positive : ¬ count ≤ 0 := by omega
  have replays : Run.Replays (fun s event => s.Enabled event ∧ s.FailsAt k event) (fun s => s.apply queue)
      (start pool count) (List.replicate 7 (.creator true)) := by
    simp [List.replicate, Run.Replays, Enabled, FailsAt, apply, start, positive,
      sh_create_thread_pool, acquire]
  refine ⟨_, Run.of_replays_guarded _ _ replays, ?_⟩
  have empty := popResult_create pool.task_queue.mem queue
  simp [List.replicate, apply, start, positive, sh_create_thread_pool, acquire, empty]

/-- The first `i` workers have been started and have done nothing yet. -/
theorem reaches_create (queue : ℕ) (pool : ThreadPool) {count : ℤ} (fails : k < count) {i : ℕ}
    (bound : i ≤ k) :
    ∃ events s, Run (Step queue k) (start pool count) events s ∧ s.creator = .create i ∧
    s.pool.mutex = none ∧
      s.pool.task_queue.popResult = none ∧ ∀ w < i, s.pool.worker w = .test := by
  induction i with
  | zero =>
    obtain ⟨s, run, place, free, empty⟩ := reaches_loop queue pool fails
    exact ⟨_, s, run, place, free, empty, nofun⟩
  | succ i ih =>
    obtain ⟨events, s, run, place, free, empty, fresh⟩ := ih (Nat.le_of_succ_le bound)
    have more : (i : ℤ) < s.count := lt_of_lt_of_le (by omega) (failing_run pool fails run).count.le
    have step : Step queue k s (.creator true) (s.apply queue (.creator true)) := by
      refine ⟨⟨by simp [Enabled, place], rfl⟩, ?_⟩
      simp only [FailsAt, place, ne_eq, CreatePhase.create.injEq, true_iff]
      omega
    refine ⟨_, _, .next run step, ?_, ?_, ?_, ?_⟩ <;> simp only [apply, sh_create_thread_pool,
      place, if_pos more, if_true]
    · exact free
    · exact empty
    · intro w below
      rcases eq_or_ne w i with rfl | differ
      · exact Function.update_self ..
      · exact (Function.update_of_ne differ ..).trans (fresh w (by omega))

/-- The first `n` workers have gone to sleep while the creator is at its first join. -/
theorem reaches_sleep (queue : ℕ) (pool : ThreadPool) {count : ℤ} (fails : k < count) {n : ℕ}
    (bound : n ≤ k) :
    ∃ events s, Run (Step queue k) (start pool count) events s ∧ s.creator = .join 0 k ∧
    s.pool.mutex = none ∧
      s.pool.task_queue.popResult = none ∧ (∀ w < n, s.pool.worker w = .blocked) ∧
      ∀ w < k, n ≤ w → s.pool.worker w = .test := by
  induction n with
  | zero =>
    obtain ⟨events, s, run, place, free, empty, fresh⟩ := reaches_create queue pool fails le_rfl
    have failing := failing_run pool fails run
    have more := failing.count
    have replays : Run.Replays (fun s event => s.Enabled event ∧ s.FailsAt k event)
      (fun s => s.apply queue) s
        [.creator false, .creator true, .creator true] := by
      simp [Run.Replays, Enabled, FailsAt, apply, sh_create_thread_pool, place, more]
    have last := Run.of_replays_guarded _ _ replays
    refine ⟨_, _, run.append last, ?_⟩
    have short : (k : ℤ) ≠ s.count := more.ne
    simp only [List.foldl, apply, sh_create_thread_pool, place, if_pos more, Bool.false_eq_true,
      if_false, if_neg short, release]
    exact ⟨trivial, free, empty, nofun, fun w below _ => fresh w below⟩
  | succ n ih =>
    obtain ⟨events, s, run, place, free, empty, asleep, fresh⟩ := ih (Nat.le_of_succ_le bound)
    have failing := failing_run pool fails run
    have started : s.started = k := by
      have reachable := failing.place
      rw [place] at reachable
      exact reachable.2.2
    have quit : s.pool.quit = 0 := by
      have set := failing.quit
      rw [place] at set
      exact set.resolve_left id
    obtain ⟨t, sleep, creator, _, _, free', empty', workers⟩ := falls_asleep (k := k) queue
      (show n < s.started by omega) (fresh n bound le_rfl) quit free empty
    refine ⟨_, t, run.append sleep, creator.trans place, free', empty', ?_, ?_⟩
    · intro w below
      rw [workers]
      rcases eq_or_ne w n with rfl | differ
      · exact Function.update_self ..
      · rw [Function.update_of_ne differ]
        exact asleep w (by omega)
    · intro w below above
      rw [workers, Function.update_of_ne (by omega)]
      exact fresh w below (by omega)

/-- With a worker that has been started, the creator and all workers can end up waiting for each other. -/
theorem gets_stuck (pool : ThreadPool) (queue : ℕ) {count : ℤ} (fails : k < count) (positive : 0 < k) :
    ∃ events s, Run (Step queue k) (start pool count) events s ∧ s.Stuck := by
  obtain ⟨events, s, run, place, _, _, asleep, _⟩ := reaches_sleep queue pool fails le_rfl
  have reachable := (failing_run pool fails run).place
  rw [place] at reachable
  refine ⟨events, s, run, ⟨0, k, place, positive, ?_⟩, ?_⟩
  · rw [asleep 0 positive]
    nofun
  · exact fun w below => Or.inr (asleep w (reachable.2.2 ▸ below))

/-- The rollback of `init_threads` works exactly when the first `pthread_create` fails. -/
theorem rollsBack_iff (pool : ThreadPool) (queue : ℕ) {count : ℤ} (fails : k < count) :
    RollsBack pool queue count k ↔ k = 0 := by
  constructor
  · intro rolls
    by_contra positive
    obtain ⟨_, _, later, t, run, done⟩ := rolls [] _ .start
    exact (failing_run pool fails run).not_returned (Nat.pos_of_ne_zero positive) false done.1
  · rintro rfl events s run
    have failing := failing_run pool fails run
    refine ⟨?_, fun created => failing.rolledBack, failing.completes⟩
    rintro ⟨⟨j, i, place, less, _⟩, _⟩
    have reachable := failing.place
    rw [place] at reachable
    obtain ⟨rfl, rfl, _⟩ := reachable
    exact lt_irrefl 0 less

end Calls

/-- The first of two workers cannot be started. -/
theorem first_create_fails : RollsBack (.sh_create_thread_pool (fun _ => 5) 7 0) 100 2 0 :=
  (rollsBack_iff (.sh_create_thread_pool (fun _ => 5) 7 0) 100 (show ((0 : ℕ) : ℤ) < 2 by decide)).mpr rfl

/-- The second one cannot be started while the first one is running. -/
theorem second_create_fails : ¬ RollsBack (.sh_create_thread_pool (fun _ => 5) 7 0) 100 2 1 := by
  obtain ⟨events, s, run, stuck⟩ := gets_stuck (.sh_create_thread_pool (fun _ => 5) 7 0) 100
    (show ((1 : ℕ) : ℤ) < 2 by decide) Nat.one_pos
  exact fun rolls => (rolls events s run).1 stuck

end PoolCreation

end LinuxZero.Pools
