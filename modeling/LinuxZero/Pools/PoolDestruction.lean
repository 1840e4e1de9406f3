import LinuxZero.Pools.ThreadPool

/-! # Destruction of the thread pool

`sh_destory_thread_pool` sets `quit` under the mutex, broadcasts, joins the workers and then releases
what the pool is made of, with the tasks that nobody has taken. A worker reads `quit` at the head of its
loop without the mutex, and once more under the mutex before it waits; the second read is what keeps it
from waiting for a broadcast that has already been sent.
-/

namespace LinuxZero.Pools

/-- What a pool is made of, apart from its threads. -/
inductive PoolResource where
  | attr
  | cond
  | mutex
  | spinlock
  | queue
  | threads
  | pool
deriving DecidableEq, Repr

/-- Where a thread is inside `sh_destory_task_queue`. -/
inductive DrainPhase where
  | pop
  /-- `pop_task` has returned the task, and `free` is next. -/
  | free (task : Task)
  | spinDestroy
  | freeQueue
deriving DecidableEq, Repr

/-- The next step of `sh_destory_task_queue`, and `none` for its end. -/
def sh_destory_task_queue (queue : TaskQueue) : DrainPhase → TaskQueue × Option DrainPhase
  | .pop =>
    (queue.apply (.pop queue.popResult), match queue.popResult with
      | some task => some (.free task)
      | none => some .spinDestroy)
  | .free task => (queue.apply (.free task.ptr), some .pop)
  | .spinDestroy => (queue, some .freeQueue)
  | .freeQueue => (queue, none)

/-- What this step of `sh_destory_task_queue` releases, other than a task. -/
def DrainPhase.releases : DrainPhase → List PoolResource
  | .spinDestroy => [.spinlock]
  | .freeQueue => [.queue]
  | _ => []

/-- Where the thread is inside `sh_destory_thread_pool`. -/
inductive DestroyPhase where
  | outside
  | lock
  /-- Holds the mutex; `pool->quit = 1` is next. -/
  | setQuit
  | unlock
  | broadcast
  /-- At the head of the loop over the threads. -/
  | join (i : ℕ)
  | condDestroy
  | mutexDestroy
  | drain (phase : DrainPhase)
  | freeThreads
  | freePool
  | returned
deriving DecidableEq, Repr

namespace DestroyPhase

/-- The place of the phase in the text of the function. -/
def position : DestroyPhase → ℕ
  | outside => 0
  | lock => 1
  | setQuit => 2
  | unlock => 3
  | broadcast => 4
  | join _ => 5
  | condDestroy => 6
  | mutexDestroy => 7
  | drain _ => 8
  | freeThreads => 9
  | freePool => 10
  | returned => 11

/-- The thread is inside the function. -/
def Called (phase : DestroyPhase) : Prop := 0 < phase.position

/-- `pool->quit` is 1. -/
def QuitSet (phase : DestroyPhase) : Prop := 2 < phase.position

def Broadcasted (phase : DestroyPhase) : Prop := 4 < phase.position

/-- All workers have been joined. -/
def Joined (phase : DestroyPhase) : Prop := 5 < phase.position

/-- The threads that have been joined, out of `count`. -/
def joins (count : ℕ) : DestroyPhase → ℕ
  | join i => i
  | phase => if 5 < phase.position then count else 0

/-- The task that the thread is about to free. -/
def freeing : DestroyPhase → List Task
  | drain (.free task) => [task]
  | _ => []

instance (phase : DestroyPhase) : Decidable phase.Called := inferInstanceAs (Decidable (_ < _))
instance (phase : DestroyPhase) : Decidable phase.QuitSet := inferInstanceAs (Decidable (_ < _))
instance (phase : DestroyPhase) : Decidable phase.Broadcasted := inferInstanceAs (Decidable (_ < _))
instance (phase : DestroyPhase) : Decidable phase.Joined := inferInstanceAs (Decidable (_ < _))

end DestroyPhase

/-- A pool with the thread that destroys it. The thread has the number `th_count` as the owner of the
mutex. `pushed`, `taken`, `executed` and `freed` list the tasks that were inserted, that workers have
popped, whose functions have returned, and that were freed without being executed. -/
structure PoolDestruction where
  pool : ThreadPool
  destroyer : DestroyPhase
  released : List PoolResource
  pushed : List Task
  taken : List Task
  executed : List Task
  freed : List Task

inductive DestroyEvent where
  /-- A step of a worker, of `sh_push_thread_pool` or of the rest of the process. -/
  | pool (event : PoolEvent)
  /-- `sh_destory_thread_pool` is called. -/
  | call
  /-- The next step of `sh_destory_thread_pool`. -/
  | destroyer
deriving DecidableEq

/-- The event is a step of `sh_push_thread_pool`. -/
def PoolEvent.Pushes : PoolEvent → Prop
  | .malloc .. | .mallocFails _ | .store _ | .push .. | .signal .. => True
  | _ => False

/-- The event is a step of worker `w`. -/
def PoolEvent.Of (w : ℕ) : PoolEvent → Prop
  | .worker v | .pop v _ | .done v | .spurious v => v = w
  | _ => False

namespace PoolDestruction

/-- `sh_create_thread_pool` has returned, and nothing was pushed yet. -/
def start (mem : ℕ → ℕ) (queue count : ℕ) : PoolDestruction where
  pool := .sh_create_thread_pool mem queue count
  destroyer := .outside
  released := []
  pushed := []
  taken := []
  executed := []
  freed := []

section Functions

variable (s : PoolDestruction)

def release (resources : List PoolResource) (next : DestroyPhase) : PoolDestruction :=
  { s with released := s.released ++ resources, destroyer := next }

/-- The next step of `sh_destory_thread_pool`. -/
def sh_destory_thread_pool : PoolDestruction :=
  match s.destroyer with
  | .lock => { s with pool := { s.pool with mutex := some s.pool.th_count }, destroyer := .setQuit }
  | .setQuit => { s with pool := { s.pool with quit := 1 }, destroyer := .unlock }
  | .unlock => { s with pool := { s.pool with mutex := none }, destroyer := .broadcast }
  | .broadcast =>
    { s with
      pool := { s.pool with
        worker := fun w => if s.pool.worker w = .blocked then .woken else s.pool.worker w }
      destroyer := .join 0 }
  | .join i => { s with destroyer := if i < s.pool.th_count then .join (i + 1) else .condDestroy }
  | .condDestroy => s.release [.cond] .mutexDestroy
  | .mutexDestroy => s.release [.mutex] (.drain .pop)
  | .drain phase =>
    let (queue, next) := Pools.sh_destory_task_queue s.pool.task_queue phase
    { s.release phase.releases (next.elim .freeThreads .drain) with
      pool := { s.pool with task_queue := queue }
      freed := s.freed ++ s.destroyer.freeing }
  | .freeThreads => s.release [.threads] .freePool
  | .freePool => s.release [.pool] .returned
  | .outside | .returned => s

/-- `pthread_mutex_lock` waits for the mutex, `pthread_join` for the thread, and nothing is pushed once the
pool is being destroyed. -/
def Enabled : DestroyEvent → Prop
  | .pool event => s.pool.Enabled event ∧ (event.Pushes → s.destroyer = .outside)
  | .call => s.destroyer = .outside ∧ ∀ t, s.pool.pusher t = .outside
  | .destroyer =>
    match s.destroyer with
    | .outside | .returned => False
    | .lock => s.pool.mutex = none
    | .join i => i < s.pool.th_count → s.pool.worker i = .exited
    | _ => True

/-- The state with the lists of tasks that an event of the pool extends. -/
def note : PoolEvent → PoolDestruction
  | .push _ task => { s with pushed := s.pushed ++ [task] }
  | .pop _ result => { s with taken := s.taken ++ result.toList }
  | .done w =>
    match s.pool.worker w with
    | .run task => { s with executed := s.executed ++ [task] }
    | _ => s
  | _ => s

def apply : DestroyEvent → PoolDestruction
  | .pool event => { s.note event with pool := s.pool.apply event }
  | .call => { s with destroyer := .lock }
  | .destroyer => s.sh_destory_thread_pool

end Functions

def Step (s : PoolDestruction) (event : DestroyEvent) (t : PoolDestruction) : Prop :=
  s.Enabled event ∧ t = s.apply event

/-- What a worker can be at, given how far the destruction has come and whether the worker owns the mutex. -/
def Consistent (destroyer : DestroyPhase) (owns : Prop) : WorkerPhase → Prop
  | .check | .unlock => owns
  | .wait => owns ∧ ¬ destroyer.QuitSet
  | .leave => owns ∧ destroyer.QuitSet
  | .blocked => ¬ owns ∧ ¬ destroyer.Broadcasted
  | .exited => ¬ owns ∧ destroyer.QuitSet
  | _ => ¬ owns

section

variable {destroyer : DestroyPhase} {owns owns' : Prop} {phase : WorkerPhase}

/-- Before `quit` is set, the place of the destroyer does not matter. -/
theorem Consistent.of_early (consistent : Consistent destroyer owns phase) (next : DestroyPhase)
    (same : owns' ↔ owns) (before : ¬ destroyer.QuitSet)
    (after : ¬ next.QuitSet ∧ ¬ next.Broadcasted) : Consistent next owns' phase := by
  cases phase <;> simp_all [Consistent]

/-- Setting `quit`, and what follows up to the broadcast: no worker owns the mutex then. -/
theorem Consistent.announced (consistent : Consistent destroyer owns phase) (next : DestroyPhase)
    (unowned : ¬ owns) (unowned' : ¬ owns') (after : next.QuitSet ∧ ¬ next.Broadcasted) :
    Consistent next owns' phase := by
  cases phase <;> simp_all [Consistent]

theorem Consistent.broadcasted (consistent : Consistent .broadcast owns phase)
    (awake : phase ≠ .blocked) :
    Consistent (.join 0) owns phase := by
  have set : DestroyPhase.broadcast.QuitSet ∧ (DestroyPhase.join 0).QuitSet := by decide
  cases phase <;> simp_all [Consistent]

end

/-- The places of all threads, the owner of the mutex and `quit` fit together. -/
structure Orderly (s : PoolDestruction) : Prop where
  quit : s.pool.quit = if s.destroyer.QuitSet then 1 else 0
  workers : ∀ w < s.pool.th_count, Consistent s.destroyer (s.pool.mutex = some w) (s.pool.worker w)
  owner : ∀ w, s.pool.mutex = some w → w ≤ s.pool.th_count
  destroyer : s.destroyer = .setQuit ∨ s.destroyer = .unlock ↔ s.pool.mutex = some s.pool.th_count
  joined : ∀ w < s.pool.th_count, w < s.destroyer.joins s.pool.th_count → s.pool.worker w = .exited
  idle : s.destroyer ≠ .outside → ∀ t, s.pool.pusher t = .outside

theorem orderly_start (mem : ℕ → ℕ) (queue count : ℕ) : Orderly (start mem queue count) where
  quit := rfl
  workers _ _ := nofun
  owner := nofun
  destroyer := by simp [start, ThreadPool.sh_create_thread_pool]
  joined _ _ := nofun
  idle := fun called => absurd rfl called

section Places

variable {s : PoolDestruction}

/-- The phase of a worker after its own step. -/
theorem thread_work_worker (pool : ThreadPool) {w v : ℕ} (differ : v ≠ w) :
    (pool.thread_work w).worker v = pool.worker v := by
  unfold ThreadPool.thread_work
  split <;> first | exact Function.update_of_ne differ .. | rfl

theorem thread_work_quit (pool : ThreadPool) (w : ℕ) : (pool.thread_work w).quit = pool.quit := by
  unfold ThreadPool.thread_work
  split <;> rfl

/-- A worker takes the mutex when it is free and releases it when it owns it. -/
theorem thread_work_mutex {pool : ThreadPool} {w : ℕ} (enabled : pool.Enabled (.worker w))
    (owns : pool.worker w ∈ [.wait, .unlock, .leave] → pool.mutex = some w) :
    (pool.thread_work w).mutex = pool.mutex ∨
      pool.mutex = none ∧ (pool.thread_work w).mutex = some w ∨
      pool.mutex = some w ∧ (pool.thread_work w).mutex = none := by
  obtain ⟨_, places⟩ := enabled
  cases phase : pool.worker w with
  | lock | woken =>
    have free : pool.mutex = none := by
      rcases places with place | ⟨_, free⟩
      · simp [phase] at place
      · exact free
    exact Or.inr (Or.inl ⟨free, by simp [ThreadPool.thread_work, phase]⟩)
  | wait | unlock | leave =>
    exact Or.inr (Or.inr ⟨owns (by simp [phase]), by simp [ThreadPool.thread_work, phase]⟩)
  | test | check | pop | run | blocked | exited =>
    exact Or.inl (by simp [ThreadPool.thread_work, phase, ThreadPool.setWorker])

/-- Whether another thread owns the mutex does not change. -/
theorem thread_work_owns {pool : ThreadPool} {w v : ℕ} (enabled : pool.Enabled (.worker w))
    (owns : pool.worker w ∈ [.wait, .unlock, .leave] → pool.mutex = some w) (differ : v ≠ w) :
    (pool.thread_work w).mutex = some v ↔ pool.mutex = some v := by
  rcases thread_work_mutex enabled owns with same | ⟨free, taken⟩ | ⟨owned, freed⟩
  · rw [same]
  · simp [free, taken, differ.symm]
  · simp [owned, freed, differ.symm]

/-- A worker that is about to release the mutex owns it. -/
theorem Orderly.owns (orderly : Orderly s) {w : ℕ} (bound : w < s.pool.th_count)
    (place : s.pool.worker w ∈ [.wait, .unlock, .leave]) : s.pool.mutex = some w := by
  have consistent := orderly.workers w bound
  simp only [List.mem_cons, List.not_mem_nil, or_false] at place
  rcases place with phase | phase | phase <;> rw [phase] at consistent
  · exact consistent.1
  · exact consistent
  · exact consistent.1

/-- The own step of a worker leads to a place that fits. -/
theorem Orderly.consistent_self (orderly : Orderly s) {w : ℕ} (enabled : s.pool.Enabled (.worker w)) :
    Consistent s.destroyer ((s.pool.thread_work w).mutex = some w) ((s.pool.thread_work w).worker w) := by
  have consistent := orderly.workers w enabled.1
  have quit := orderly.quit
  cases phase : s.pool.worker w with
  | test =>
    rw [phase] at consistent
    by_cases set : s.destroyer.QuitSet
    · rw [if_pos set] at quit
      simpa [ThreadPool.thread_work, phase, ThreadPool.setWorker, quit, Consistent, set] using consistent
    · rw [if_neg set] at quit
      simpa [ThreadPool.thread_work, phase, ThreadPool.setWorker, quit, Consistent] using consistent
  | check =>
    rw [phase] at consistent
    by_cases set : s.destroyer.QuitSet
    · rw [if_pos set] at quit
      simpa [ThreadPool.thread_work, phase, ThreadPool.setWorker, quit, Consistent, set] using consistent
    · rw [if_neg set] at quit
      simpa [ThreadPool.thread_work, phase, ThreadPool.setWorker, quit, Consistent, set] using consistent
  | wait =>
    rw [phase] at consistent
    have early : ¬ s.destroyer.Broadcasted := fun late => consistent.2 (Nat.lt_trans (by decide) late)
    simpa [ThreadPool.thread_work, phase, ThreadPool.setWorker, Consistent] using early
  | leave =>
    rw [phase] at consistent
    simpa [ThreadPool.thread_work, phase, ThreadPool.setWorker, Consistent] using consistent.2
  | lock | woken | unlock => simp [ThreadPool.thread_work, phase, ThreadPool.setWorker, Consistent]
  | pop | run | blocked | exited =>
    rcases enabled.2 with place | ⟨place, _⟩ <;> simp [phase] at place

theorem Orderly.worker (orderly : Orderly s) {w : ℕ} (enabled : s.pool.Enabled (.worker w)) :
    Orderly { s with pool := s.pool.thread_work w } := by
  obtain ⟨pushers, count⟩ := ThreadPool.thread_work_frame (s := s.pool) w
  have bound := enabled.1
  have owns : ∀ {v}, v ≠ w → ((s.pool.thread_work w).mutex = some v ↔ s.pool.mutex = some v) :=
    thread_work_owns enabled (orderly.owns bound)
  refine ⟨(thread_work_quit s.pool w).trans orderly.quit, ?_, ?_, ?_, ?_, ?_⟩
  · intro v below
    rcases eq_or_ne v w with rfl | differ
    · exact orderly.consistent_self enabled
    · change Consistent s.destroyer ((s.pool.thread_work w).mutex = some v)
        ((s.pool.thread_work w).worker v)
      rw [thread_work_worker s.pool differ, owns differ]
      exact orderly.workers v (count ▸ below)
  · intro v owned
    rcases eq_or_ne v w with rfl | differ
    · exact (count ▸ bound.le : _ ≤ (s.pool.thread_work v).th_count)
    · exact count ▸ orderly.owner v ((owns differ).mp owned)
  · change _ ↔ (s.pool.thread_work w).mutex = some (s.pool.thread_work w).th_count
    rw [count, owns (by omega)]
    exact orderly.destroyer
  · intro v below before
    change (s.pool.thread_work w).worker v = .exited
    have exited := orderly.joined v (count ▸ below) (count ▸ before)
    rcases eq_or_ne v w with rfl | differ
    · rcases enabled.2 with place | ⟨place, _⟩ <;> simp [exited] at place
    · rw [thread_work_worker s.pool differ, exited]
  · exact fun called t => pushers ▸ orderly.idle called t

/-- Steps that leave the mutex and `quit` alone, and take workers to places that fit. -/
theorem Orderly.move (orderly : Orderly s) (pool : ThreadPool) (t : PoolDestruction)
    (same : t.pool = pool ∧ t.destroyer = s.destroyer)
    (frame : pool.quit = s.pool.quit ∧ pool.mutex = s.pool.mutex ∧ pool.th_count = s.pool.th_count)
    (workers : ∀ w < s.pool.th_count, pool.worker w = s.pool.worker w ∨
      s.pool.worker w ≠ .exited ∧ Consistent s.destroyer (s.pool.mutex = some w) (pool.worker w))
    (idle : s.destroyer ≠ .outside → pool.pusher = s.pool.pusher) : Orderly t := by
  obtain ⟨rfl, destroyer⟩ := same
  obtain ⟨quit, mutex, count⟩ := frame
  constructor
  case quit =>
    rw [quit, destroyer]
    exact orderly.quit
  case workers =>
    intro w bound
    rw [count] at bound
    rw [destroyer, mutex]
    rcases workers w bound with unmoved | ⟨_, consistent⟩
    · rw [unmoved]
      exact orderly.workers w bound
    · exact consistent
  case owner =>
    rw [mutex, count]
    exact orderly.owner
  case destroyer =>
    rw [mutex, count, destroyer]
    exact orderly.destroyer
  case joined =>
    rw [count, destroyer]
    intro w bound before
    have exited := orderly.joined w bound before
    rcases workers w bound with unmoved | ⟨inside, _⟩
    · exact unmoved.trans exited
    · exact absurd exited inside
  case idle =>
    rw [destroyer]
    intro called t
    rw [idle called]
    exact orderly.idle called t

/-- A worker that does not own the mutex goes to a place without it. -/
theorem Orderly.moves (orderly : Orderly s) {w : ℕ} {phase : WorkerPhase} (bound : w < s.pool.th_count)
    (place : s.pool.worker w = .pop ∨ (∃ task, s.pool.worker w = .run task) ∨ s.pool.worker w = .blocked)
    (fits : ∀ owns : Prop, ¬ owns → Consistent s.destroyer owns phase) :
    s.pool.worker w ≠ .exited ∧ Consistent s.destroyer (s.pool.mutex = some w) phase := by
  have consistent := orderly.workers w bound
  rcases place with place | ⟨task, place⟩ | place <;> rw [place] at consistent ⊢
  · exact ⟨nofun, fits _ consistent⟩
  · exact ⟨nofun, fits _ consistent⟩
  · exact ⟨nofun, fits _ consistent.1⟩

/-- One worker is moved, the others stay. -/
theorem update_cases {worker : ℕ → WorkerPhase} {P : ℕ → WorkerPhase → Prop} {w : ℕ} {phase : WorkerPhase}
    (moved : P w phase) (v : ℕ) : Function.update worker w phase v = worker v ∨
    P v (Function.update worker w phase v) := by
  rcases eq_or_ne v w with rfl | differ
  · exact Or.inr (by rwa [Function.update_self])
  · exact Or.inl (Function.update_of_ne differ ..)

theorem Orderly.pool (orderly : Orderly s) {event : PoolEvent} (enabled : s.Enabled (.pool event)) :
    Orderly (s.apply (.pool event)) := by
  obtain ⟨possible, early⟩ := enabled
  cases event with
  | worker w => exact orderly.worker possible
  | pop w result =>
    obtain ⟨bound, phase, _⟩ := possible
    refine orderly.move (s.pool.apply (.pop w result)) _ ⟨rfl, rfl⟩ ⟨rfl, rfl, rfl⟩ ?_ fun _ => rfl
    intro v _
    refine update_cases (P := fun v phase => s.pool.worker v ≠ .exited ∧
      Consistent s.destroyer (s.pool.mutex = some v) phase) ?_ v
    exact orderly.moves bound (Or.inl phase) fun owns free => by cases result <;> exact free
  | done w =>
    obtain ⟨bound, task, phase, _⟩ := possible
    refine orderly.move (s.pool.apply (.done w)) _ ⟨?_, ?_⟩ ?_ ?_ ?_
    · rfl
    · simp only [apply, note, phase]
    · simp only [ThreadPool.apply, phase]
      exact ⟨rfl, rfl, rfl⟩
    · intro v _
      simp only [ThreadPool.apply, phase]
      refine update_cases (P := fun v phase => s.pool.worker v ≠ .exited ∧
        Consistent s.destroyer (s.pool.mutex = some v) phase) ?_ v
      exact orderly.moves bound (Or.inr (Or.inl ⟨task, phase⟩)) fun owns free => free
    · intro _
      simp only [ThreadPool.apply, phase]
      rfl
  | spurious w =>
    obtain ⟨bound, phase⟩ := possible
    refine orderly.move (s.pool.apply (.spurious w)) _ ⟨rfl, rfl⟩ ⟨rfl, rfl, rfl⟩ ?_ fun _ => rfl
    intro v _
    refine update_cases (P := fun v phase => s.pool.worker v ≠ .exited ∧
      Consistent s.destroyer (s.pool.mutex = some v) phase) ?_ v
    exact orderly.moves bound (Or.inr (Or.inr phase)) fun owns free => free
  | malloc i task =>
    exact orderly.move (s.pool.apply (.malloc i task)) _ ⟨rfl, rfl⟩ ⟨rfl, rfl, rfl⟩
      (fun _ _ => Or.inl rfl) fun called => absurd (early trivial) called
  | mallocFails i =>
    exact orderly.move (s.pool.apply (.mallocFails i)) _ ⟨rfl, rfl⟩ ⟨rfl, rfl, rfl⟩
      (fun _ _ => Or.inl rfl) fun called => absurd (early trivial) called
  | store i =>
    exact orderly.move (s.pool.apply (.store i)) _ ⟨rfl, rfl⟩ ⟨rfl, rfl, rfl⟩
      (fun _ _ => Or.inl rfl) fun _ => rfl
  | push i task =>
    exact orderly.move (s.pool.apply (.push i task)) _ ⟨rfl, rfl⟩ ⟨rfl, rfl, rfl⟩
      (fun _ _ => Or.inl rfl) fun called => absurd (early trivial) called
  | signal i woken =>
    refine orderly.move (s.pool.apply (.signal i woken)) _ ⟨rfl, rfl⟩ ⟨rfl, rfl, rfl⟩ ?_
      fun called => absurd (early trivial) called
    intro w bound
    by_cases member : w ∈ woken
    · refine Or.inr ?_
      simp only [ThreadPool.apply, if_pos member]
      exact orderly.moves bound (Or.inr (Or.inr (possible.2.1 w member).2)) fun owns free => free
    · exact Or.inl (if_neg member)
  | other address value =>
    exact orderly.move (s.pool.apply (.other address value)) _ ⟨rfl, rfl⟩ ⟨rfl, rfl, rfl⟩
      (fun _ _ => Or.inl rfl) fun _ => rfl

/-- After the broadcast, the destroyer leaves the mutex, `quit` and the workers alone. -/
theorem Orderly.advance (orderly : Orderly s) (t : PoolDestruction)
    (frame : t.pool.quit = s.pool.quit ∧ t.pool.mutex = s.pool.mutex ∧ t.pool.th_count = s.pool.th_count ∧
      t.pool.worker = s.pool.worker ∧ t.pool.pusher = s.pool.pusher)
    (late : s.destroyer.Broadcasted ∧ t.destroyer.Broadcasted)
    (joined : ∀ w < s.pool.th_count, w < t.destroyer.joins s.pool.th_count → s.pool.worker w = .exited) :
    Orderly t := by
  obtain ⟨sameQuit, mutex, count, worker, pusher⟩ := frame
  have quit : ∀ {phase : DestroyPhase}, phase.Broadcasted → phase.QuitSet := fun late =>
    Nat.lt_trans (by decide) late
  have unlocked : ∀ {phase : DestroyPhase}, phase.Broadcasted →
    ¬ (phase = .setQuit ∨ phase = .unlock) := by
    rintro phase late (rfl | rfl) <;> exact absurd late (by decide)
  have called : s.destroyer ≠ .outside := by
    intro outside
    rw [outside] at late
    exact absurd late.1 (by decide)
  constructor
  case quit =>
    rw [sameQuit, orderly.quit, if_pos (quit late.1), if_pos (quit late.2)]
  case workers =>
    rw [mutex, count, worker]
    intro w bound
    have consistent := orderly.workers w bound
    cases phase : s.pool.worker w <;> rw [phase] at consistent <;>
      simpa only [Consistent, quit late.1, quit late.2, late.1, late.2] using consistent
  case owner =>
    rw [mutex, count]
    exact orderly.owner
  case destroyer =>
    rw [mutex, count, ← orderly.destroyer]
    exact iff_of_false (unlocked late.2) (unlocked late.1)
  case joined =>
    rw [count, worker]
    exact joined
  case idle =>
    exact fun _ t => pusher ▸ orderly.idle called t

theorem Orderly.call (orderly : Orderly s) (enabled : s.Enabled .call) : Orderly (s.apply .call) := by
  obtain ⟨outside, idle⟩ := enabled
  have quit := orderly.quit
  have unowned := orderly.destroyer
  rw [outside] at quit unowned
  refine ⟨quit, ?_, orderly.owner, by simpa [apply] using unowned, fun _ _ => nofun, fun _ => idle⟩
  intro w bound
  have consistent := orderly.workers w bound
  rw [outside] at consistent
  exact consistent.of_early .lock Iff.rfl (by decide) (by decide)

/-- Taking the mutex, setting `quit`, releasing the mutex and waking up the workers that wait. -/
theorem Orderly.announce (orderly : Orderly s) (enabled : s.Enabled .destroyer)
    (early : s.destroyer.Called ∧ ¬ s.destroyer.Broadcasted) : Orderly s.sh_destory_thread_pool := by
  have idle : ∀ t, s.pool.pusher t = .outside := by
    refine orderly.idle fun outside => ?_
    rw [outside] at early
    exact absurd early.1 (by decide)
  have quit := orderly.quit
  have others : s.pool.mutex = some s.pool.th_count → ∀ w < s.pool.th_count, s.pool.mutex ≠ some w := by
    intro owned w bound same
    exact bound.ne' (Option.some.inj (owned.symm.trans same))
  cases place : s.destroyer with
  | lock =>
    have unlocked : s.pool.mutex = none := by simpa [Enabled, place] using enabled
    rw [place] at quit
    simp only [sh_destory_thread_pool, place]
    refine ⟨quit, ?_, ?_, by simp, fun _ _ => nofun, fun _ => idle⟩
    · intro w bound
      have consistent := orderly.workers w bound
      have other : some s.pool.th_count = some w ↔ s.pool.mutex = some w := by
        rw [unlocked]
        exact iff_of_false (fun same => bound.ne' (Option.some.inj same)) nofun
      rw [place] at consistent
      exact consistent.of_early .setQuit other (by decide) (by decide)
    · exact fun w same => (Option.some.inj same).ge
  | setQuit =>
    have owned : s.pool.mutex = some s.pool.th_count := orderly.destroyer.mp (Or.inl place)
    simp only [sh_destory_thread_pool, place]
    refine ⟨rfl, ?_, orderly.owner, by simp [owned], fun _ _ => nofun, fun _ => idle⟩
    intro w bound
    exact (orderly.workers w bound).announced .unlock (others owned w bound)
      (others owned w bound) (by decide)
  | unlock =>
    have owned : s.pool.mutex = some s.pool.th_count := orderly.destroyer.mp (Or.inr place)
    rw [place] at quit
    simp only [sh_destory_thread_pool, place]
    refine ⟨quit, ?_, nofun, by simp, fun _ _ => nofun, fun _ => idle⟩
    intro w bound
    exact (orderly.workers w bound).announced .broadcast (others owned w bound) nofun (by decide)
  | broadcast =>
    have unowned := orderly.destroyer
    rw [place] at quit unowned
    simp only [sh_destory_thread_pool, place]
    refine ⟨quit, ?_, orderly.owner,
      by simpa using unowned, fun w _ early => absurd early (Nat.not_lt_zero w), fun _ => idle⟩
    intro w bound
    have consistent := orderly.workers w bound
    rw [place] at consistent
    change Consistent (.join 0) (s.pool.mutex = some w) (if s.pool.worker w = .blocked then .woken
      else s.pool.worker w)
    by_cases asleep : s.pool.worker w = .blocked
    · rw [asleep] at consistent
      rw [if_pos asleep]
      exact consistent.1
    · rw [if_neg asleep]
      exact consistent.broadcasted asleep
  | outside => exact absurd early.1 (place ▸ by decide)
  | join | condDestroy | mutexDestroy | drain | freeThreads | freePool | returned =>
    simp [place, DestroyPhase.Broadcasted, DestroyPhase.position] at early

theorem Orderly.destroyer_step (orderly : Orderly s) (enabled : s.Enabled .destroyer) :
    Orderly s.sh_destory_thread_pool := by
  have joined := orderly.joined
  cases place : s.destroyer with
  | outside | returned => simp [Enabled, place] at enabled
  | lock | setQuit | unlock | broadcast => exact orderly.announce enabled (place ▸ by decide)
  | join i =>
    rw [place] at joined
    simp only [sh_destory_thread_pool, place]
    by_cases more : i < s.pool.th_count
    · rw [if_pos more]
      have exited : s.pool.worker i = .exited := by
        simp only [Enabled, place] at enabled
        exact enabled more
      refine orderly.advance _ ⟨rfl, rfl, rfl, rfl, rfl⟩ ⟨place ▸ (by decide : 4 < 5),
        (by decide : 4 < 5)⟩ ?_
      intro w bound before
      rcases Nat.lt_succ_iff_lt_or_eq.mp (show w < i + 1 from before) with less | rfl
      · exact joined w bound less
      · exact exited
    · rw [if_neg more]
      refine orderly.advance _ ⟨rfl, rfl, rfl, rfl, rfl⟩ ⟨place ▸ (by decide : 4 < 5),
        (by decide : 4 < 6)⟩ ?_
      exact fun w bound _ => joined w bound (show w < i by omega)
  | condDestroy | mutexDestroy | freeThreads | freePool =>
    rw [place] at joined
    simp only [sh_destory_thread_pool, place]
    refine orderly.advance _ ⟨rfl, rfl, rfl, rfl, rfl⟩ ⟨place ▸ by decide, ?_⟩ fun w bound _ =>
      joined w bound bound
    simp only [release]
    decide
  | drain phase =>
    rw [place] at joined
    simp only [sh_destory_thread_pool, place]
    refine orderly.advance _ ⟨rfl, rfl, rfl, rfl, rfl⟩ ⟨place ▸ (by decide : 4 < 8), ?_⟩
      fun w bound _ => joined w bound bound
    simp only [release]
    cases (Pools.sh_destory_task_queue s.pool.task_queue phase).2 with
    | none => exact (by decide : 4 < 9)
    | some p => exact (by decide : 4 < 8)

theorem Orderly.step (orderly : Orderly s) {event : DestroyEvent} {t : PoolDestruction}
    (step : Step s event t) :
    Orderly t := by
  obtain ⟨enabled, rfl⟩ := step
  cases event with
  | pool event => exact orderly.pool enabled
  | call => exact orderly.call enabled
  | destroyer => exact orderly.destroyer_step enabled

end Places

end PoolDestruction

end LinuxZero.Pools
