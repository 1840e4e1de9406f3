import LinuxZero.Pools.TaskQueue

/-! # Workers of the thread pool and their wake-ups

A worker takes tasks until `pop_task` returns null; then it locks the mutex and waits on the condition
variable. `sh_push_thread_pool` inserts a task under the spinlock and signals without the mutex. A
signal that comes while every worker is between its empty `pop_task` and its wait reaches nobody, and
the task that it announces stays in the queue. The threads are cut before every access to something
that another one uses.
-/

namespace LinuxZero.Pools

/-- Where a worker is inside `thread_work`. -/
inductive WorkerPhase where
  /-- About to read `pool->quit` at the head of the loop. -/
  | test
  /-- About to call `pop_task`. -/
  | pop
  /-- Runs the function of its task, and frees the node. -/
  | run (task : Task)
  /-- `pop_task` has returned null; `pthread_mutex_lock` is next. -/
  | lock
  /-- Holds the mutex, and reads `pool->quit` again. -/
  | check
  /-- Holds the mutex; `pthread_cond_wait` is next. -/
  | wait
  /-- Blocked in `pthread_cond_wait`, which has released the mutex. -/
  | blocked
  /-- Signalled, or woken up for no reason, and about to get the mutex back. -/
  | woken
  | unlock
  /-- Holds the mutex, and leaves the loop because `pool->quit` is 1. -/
  | leave
  | exited
deriving DecidableEq, Repr

/-- Where a thread is inside `sh_push_thread_pool`. -/
inductive PusherPhase where
  | outside
  | pushTask
  /-- `push_task` has returned; `pthread_cond_signal` is next. -/
  | signal
deriving DecidableEq, Repr

namespace WorkerPhase

/-- Between an empty `pop_task` and the wait. -/
def InWindow (phase : WorkerPhase) : Prop := phase = lock ∨ phase = check ∨ phase = wait

/-- The worker calls `pop_task` again before it waits, or it has left. -/
def Awake (phase : WorkerPhase) : Prop := ¬ phase.InWindow ∧ phase ≠ blocked

instance (phase : WorkerPhase) : Decidable phase.InWindow := inferInstanceAs (Decidable (_ ∨ _))

instance (phase : WorkerPhase) : Decidable phase.Awake := inferInstanceAs (Decidable (_ ∧ _))

end WorkerPhase

/-- The threads and what they share; the workers are the numbers below `th_count`. -/
structure ThreadPool where
  task_queue : TaskQueue
  quit : ℤ
  th_count : ℕ
  mutex : Option ℕ
  worker : ℕ → WorkerPhase
  pusher : ℕ → PusherPhase

inductive PoolEvent where
  /-- The worker executes its next step other than `pop_task` and the task. -/
  | worker (w : ℕ)
  /-- The worker calls `pop_task`. -/
  | pop (w : ℕ) (result : Option Task)
  /-- The task has run and its node is freed. -/
  | done (w : ℕ)
  /-- `pthread_cond_wait` returns without a signal. -/
  | spurious (w : ℕ)
  /-- `sh_push_thread_pool` is called, and `malloc` succeeds in `push_task`. -/
  | malloc (t : ℕ) (task : Task)
  /-- `sh_push_thread_pool` is called, and `malloc` fails in `push_task`. -/
  | mallocFails (t : ℕ)
  | store (t : ℕ)
  /-- The critical section of `push_task`. -/
  | push (t : ℕ) (task : Task)
  /-- `pthread_cond_signal`, with the workers that it wakes up. -/
  | signal (t : ℕ) (woken : Finset ℕ)
  /-- The rest of the process stores a word. -/
  | other (address value : ℕ)
deriving DecidableEq

namespace ThreadPool

/-- `sh_create_thread_pool` has started `count` workers. -/
def sh_create_thread_pool (mem : ℕ → ℕ) (queue count : ℕ) : ThreadPool where
  task_queue := .sh_create_task_queue mem queue
  quit := 0
  th_count := count
  mutex := none
  worker _ := .test
  pusher _ := .outside

section Functions

variable (s : ThreadPool)

def setWorker (w : ℕ) (phase : WorkerPhase) : ThreadPool :=
  { s with worker := Function.update s.worker w phase }

def setPusher (t : ℕ) (phase : PusherPhase) : ThreadPool :=
  { s with pusher := Function.update s.pusher t phase }

/-- The next step of `thread_work`. -/
def thread_work (w : ℕ) : ThreadPool :=
  match s.worker w with
  | .test => s.setWorker w (if s.quit = 0 then .pop else .exited)
  | .lock => { s.setWorker w .check with mutex := some w }
  | .check => s.setWorker w (if s.quit = 1 then .leave else .wait)
  | .wait => { s.setWorker w .blocked with mutex := none }
  | .woken => { s.setWorker w .unlock with mutex := some w }
  | .unlock => { s.setWorker w .test with mutex := none }
  | .leave => { s.setWorker w .exited with mutex := none }
  | _ => s

/-- What the worker does with the result of `pop_task`. -/
def afterPop : Option Task → WorkerPhase
  | some task => .run task
  | none => .lock

/-- The mutex has one owner, and a signal wakes at least one of the workers that are blocked. -/
def Enabled : PoolEvent → Prop
  | .worker w => w < s.th_count ∧
      (s.worker w ∈ [.test, .check, .wait, .unlock, .leave] ∨
        s.worker w ∈ [.lock, .woken] ∧ s.mutex = none)
  | .pop w result => w < s.th_count ∧ s.worker w = .pop ∧ s.task_queue.Enabled (.pop result)
  | .done w => w < s.th_count ∧ ∃ task, s.worker w = .run task ∧ s.task_queue.Enabled (.free task.ptr)
  | .spurious w => w < s.th_count ∧ s.worker w = .blocked
  | .malloc t task => s.pusher t = .outside ∧ s.task_queue.Enabled (.malloc t task)
  | .mallocFails t => s.pusher t = .outside
  | .store t => s.pusher t = .pushTask ∧ s.task_queue.Enabled (.store t)
  | .push t task => s.pusher t = .pushTask ∧ s.task_queue.Enabled (.push t task)
  | .signal t woken => s.pusher t = .signal ∧ (∀ w ∈ woken, w < s.th_count ∧ s.worker w = .blocked) ∧
      ((∃ w < s.th_count, s.worker w = .blocked) → woken.Nonempty)
  | .other address value => s.task_queue.Enabled (.other address value)

def apply : PoolEvent → ThreadPool
  | .worker w => s.thread_work w
  | .pop w result =>
    { s.setWorker w (afterPop result) with task_queue := s.task_queue.apply (.pop result) }
  | .done w =>
    match s.worker w with
    | .run task => { s.setWorker w .test with task_queue := s.task_queue.apply (.free task.ptr) }
    | _ => s
  | .spurious w => s.setWorker w .woken
  | .malloc t task => { s.setPusher t .pushTask with task_queue := s.task_queue.apply (.malloc t task) }
  | .mallocFails t => s.setPusher t .signal
  | .store t => { s with task_queue := s.task_queue.apply (.store t) }
  | .push t task => { s.setPusher t .signal with task_queue := s.task_queue.apply (.push t task) }
  | .signal t woken =>
    { s.setPusher t .outside with worker := fun w => if w ∈ woken then .woken else s.worker w }
  | .other address value => { s with task_queue := s.task_queue.apply (.other address value) }

/-- No call of `sh_push_thread_pool` is in progress, other than one by thread `t`. -/
def NoOtherPush (t : ℕ) : Prop := ∀ i, i ≠ t → s.pusher i = .outside

/-- A task is in the queue, nobody is pushing, and every worker sleeps. -/
def Stranded : Prop :=
  s.task_queue.head ≠ 0 ∧ (∀ t, s.pusher t = .outside) ∧ ∀ w < s.th_count, s.worker w = .blocked

/-- The last signal for a task that is still in the queue does not come while every worker is between its
empty `pop_task` and its wait. -/
def Heard : PoolEvent → Prop
  | .signal t _ => s.task_queue.head ≠ 0 → s.NoOtherPush t → ∃ w < s.th_count, ¬ (s.worker w).InWindow
  | _ => True

/-- A task in the queue that nobody is about to announce has a worker that will look for it. -/
def Attended : Prop :=
  s.task_queue.head ≠ 0 → (∀ t, s.pusher t = .outside) → ∃ w < s.th_count, (s.worker w).Awake

end Functions

def Step (s : ThreadPool) (event : PoolEvent) (t : ThreadPool) : Prop :=
  s.Enabled event ∧ t = s.apply event

def HeardStep (s : ThreadPool) (event : PoolEvent) (t : ThreadPool) : Prop :=
  Step s event t ∧ s.Heard event

variable {s t : ThreadPool} {event : PoolEvent}

/-- The events of the task queue among those of the pool. -/
def queueEvent : PoolEvent → ThreadPool → Option QueueEvent
  | .pop _ result, _ => some (.pop result)
  | .done w, s => match s.worker w with
    | .run task => some (.free task.ptr)
    | _ => none
  | .malloc t task, _ => some (.malloc t task)
  | .store t, _ => some (.store t)
  | .push t task, _ => some (.push t task)
  | .other address value, _ => some (.other address value)
  | _, _ => none

theorem thread_work_task_queue (w : ℕ) : (s.thread_work w).task_queue = s.task_queue := by
  unfold thread_work
  split <;> rfl

/-- A step of the pool is a step of its queue, or leaves the queue alone. -/
theorem Step.task_queue (step : Step s event t) :
    match queueEvent event s with
    | some queued => TaskQueue.Step s.task_queue queued t.task_queue
    | none => t.task_queue = s.task_queue := by
  obtain ⟨enabled, rfl⟩ := step
  cases event with
  | worker w => exact thread_work_task_queue w
  | pop w result => exact ⟨enabled.2.2, rfl⟩
  | done w =>
    obtain ⟨_, task, phase, free⟩ := enabled
    simp only [queueEvent, apply, phase]
    exact ⟨free, rfl⟩
  | spurious w => rfl
  | malloc i task => exact ⟨enabled.2, rfl⟩
  | mallocFails i => rfl
  | store i => exact ⟨enabled.2, rfl⟩
  | push i task => exact ⟨enabled.2, rfl⟩
  | signal i woken => rfl
  | other address value => exact ⟨enabled, rfl⟩

/-- Every run of the pool runs its queue, which is therefore a list that is served in order. -/
theorem task_queue_run (mem : ℕ → ℕ) (queue count : ℕ) {events : List PoolEvent}
    (run : Run Step (sh_create_thread_pool mem queue count) events s) :
    ∃ queueEvents, Run TaskQueue.Step (.sh_create_task_queue mem queue) queueEvents s.task_queue := by
  refine run.invariant (fun s => ∃ queueEvents,
    Run TaskQueue.Step (.sh_create_task_queue mem queue) queueEvents s.task_queue) ?_ ⟨[], .start⟩
  rintro s event t ⟨queueEvents, queueRun⟩ step
  have queueStep := step.task_queue
  cases same : queueEvent event s with
  | none =>
    rw [same] at queueStep
    exact ⟨queueEvents, (show t.task_queue = s.task_queue from queueStep) ▸ queueRun⟩
  | some queued =>
    rw [same] at queueStep
    exact ⟨_, .next queueRun queueStep⟩

/-- A worker that is awake stays awake outside `pop_task`, and no step of its own puts another to sleep. -/
theorem awake_thread_work (w : ℕ) {i : ℕ} (awake : (s.worker i).Awake) :
    ((s.thread_work w).worker i).Awake := by
  rcases eq_or_ne i w with rfl | differ
  · cases phase : s.worker i with
    | test =>
      simp only [thread_work, phase, setWorker, Function.update_self]
      split_ifs <;> decide
    | lock => exact absurd (phase ▸ awake) (by decide)
    | check => exact absurd (phase ▸ awake) (by decide)
    | wait => exact absurd (phase ▸ awake) (by decide)
    | woken | unlock | leave =>
      simp only [thread_work, phase, setWorker, Function.update_self]
      decide
    | pop | run | blocked | exited => simpa only [thread_work, phase] using awake
  · unfold thread_work
    split <;> simpa only [setWorker, Function.update_of_ne differ] using awake

theorem thread_work_frame (w : ℕ) :
    (s.thread_work w).pusher = s.pusher ∧ (s.thread_work w).th_count = s.th_count := by
  unfold thread_work
  split <;> exact ⟨rfl, rfl⟩

/-- A thread that is inside `sh_push_thread_pool` will signal. -/
theorem attended_of_pushing {i : ℕ} (pushing : s.pusher i ≠ .outside) : s.Attended :=
  fun _ idle => absurd (idle i) pushing

/-- A store outside the queue leaves its head. -/
theorem head_other {q : TaskQueue} {address value : ℕ} (enabled : q.Enabled (.other address value)) :
    (q.apply (.other address value)).head = q.head := by
  have apart : q.headField ≠ address := by
    rintro rfl
    exact enabled.1 (TaskQueue.within_add q.queue 0 (by omega))
  exact Function.update_of_ne apart ..

theorem Attended.step (attended : s.Attended) (step : HeardStep s event t) : t.Attended := by
  obtain ⟨⟨enabled, rfl⟩, heard⟩ := step
  cases event with
  | worker w =>
    intro nonempty idle
    change (s.thread_work w).task_queue.head ≠ 0 at nonempty
    rw [thread_work_task_queue] at nonempty
    obtain ⟨pushers, count⟩ := thread_work_frame (s := s) w
    obtain ⟨i, bound, awake⟩ := attended nonempty (pushers ▸ idle)
    exact ⟨i, count.symm ▸ bound, awake_thread_work w awake⟩
  | pop w result =>
    obtain ⟨bound, _, popped⟩ := enabled
    intro nonempty idle
    refine ⟨w, bound, ?_⟩
    change (Function.update s.worker w (afterPop result) w).Awake
    rw [Function.update_self]
    cases result with
    | some task => simp [afterPop, WorkerPhase.Awake, WorkerPhase.InWindow]
    | none =>
      -- the queue was empty, and the pop has left it so
      have empty : s.task_queue.head = 0 := by
        by_contra head
        change none = s.task_queue.popResult at popped
        rw [TaskQueue.popResult, if_pos head] at popped
        contradiction
      have same : s.task_queue.apply (.pop none) = s.task_queue := by
        rw [show (none : Option Task) = s.task_queue.popResult from popped]
        simp [TaskQueue.apply, TaskQueue.popResult, TaskQueue.popLink, empty]
      exact absurd ((congrArg TaskQueue.head same).trans empty) nonempty
  | done w =>
    obtain ⟨bound, task, phase, _⟩ := enabled
    intro _ _
    simp only [apply, phase]
    refine ⟨w, bound, ?_⟩
    simp only [setWorker, Function.update_self]
    decide
  | spurious w =>
    intro _ _
    refine ⟨w, enabled.1, ?_⟩
    simp only [apply, setWorker, Function.update_self]
    decide
  | malloc i task => exact attended_of_pushing (i := i) (by simp [apply, setPusher])
  | mallocFails i => exact attended_of_pushing (i := i) (by simp [apply, setPusher])
  | store i => exact attended_of_pushing (i := i) (by simp [apply, enabled.1])
  | push i task => exact attended_of_pushing (i := i) (by simp [apply, setPusher])
  | signal i woken =>
    obtain ⟨_, sleepers, wakes⟩ := enabled
    intro nonempty idle
    have others : s.NoOtherPush i := by
      intro j differ
      have outside := idle j
      simpa only [apply, setPusher, Function.update_of_ne differ] using outside
    obtain ⟨w, bound, notWindow⟩ := heard nonempty others
    by_cases sleeps : s.worker w = .blocked
    · obtain ⟨v, member⟩ := wakes ⟨w, bound, sleeps⟩
      refine ⟨v, (sleepers v member).1, ?_⟩
      simp only [apply, if_pos member]
      decide
    · refine ⟨w, bound, ?_⟩
      have unsignalled : w ∉ woken := fun member => sleeps (sleepers w member).2
      simp only [apply, if_neg unsignalled]
      exact ⟨notWindow, sleeps⟩
  | other address value =>
    intro nonempty idle
    exact attended (head_other enabled ▸ nonempty) idle

/-- No task is left behind while all workers sleep, if every last signal is heard. -/
theorem never_stranded (mem : ℕ → ℕ) (queue count : ℕ) {events : List PoolEvent}
    (run : Run HeardStep (sh_create_thread_pool mem queue count) events s) : ¬ s.Stranded := by
  have attended : s.Attended := by
    refine run.invariant Attended (fun _ _ _ attended step => attended.step step) ?_
    intro nonempty
    exact absurd (Function.update_of_ne (Nat.succ_ne_self queue).symm .. |>.trans
      (Function.update_self ..)) nonempty
  rintro ⟨nonempty, idle, asleep⟩
  obtain ⟨w, bound, awake⟩ := attended nonempty idle
  exact awake.2 (asleep w bound)

/-- A push to a pool whose only worker has already gone to sleep. -/
def pushToSleeper : List PoolEvent :=
  [.worker 0, .pop 0 none, .worker 0, .worker 0, .worker 0, .malloc 1 ⟨10, 7, 8⟩, .store 1,
    .store 1, .store 1, .push 1 ⟨10, 7, 8⟩, .signal 1 {0}]

/-- The same push, when the worker has seen the empty queue but does not wait yet. -/
def pushInWindow : List PoolEvent :=
  [.worker 0, .pop 0 none, .malloc 1 ⟨10, 7, 8⟩, .store 1, .store 1, .store 1, .push 1 ⟨10, 7, 8⟩,
    .signal 1 ∅, .worker 0, .worker 0, .worker 0]

theorem pushToSleeper_not_stranded :
    ¬ (pushToSleeper.foldl apply (sh_create_thread_pool (fun _ => 5) 100 1)).Stranded := by
  have replays : Run.Replays (fun s event => s.Enabled event ∧ s.Heard event) apply
      (sh_create_thread_pool (fun _ => 5) 100 1) pushToSleeper := by
    refine ⟨⟨⟨by decide, Or.inl (by decide)⟩, trivial⟩, ⟨⟨by decide, rfl, rfl⟩, trivial⟩,
      ⟨⟨by decide, Or.inr ⟨by decide, rfl⟩⟩, trivial⟩, ⟨⟨by decide, Or.inl (by decide)⟩, trivial⟩,
      ⟨⟨by decide, Or.inl (by decide)⟩, trivial⟩, ⟨⟨rfl, rfl, by decide, by decide, by decide⟩, trivial⟩,
      ⟨⟨rfl, _, Or.inl rfl⟩, trivial⟩, ⟨⟨rfl, _, Or.inr (Or.inl rfl)⟩, trivial⟩,
      ⟨⟨rfl, _, Or.inr (Or.inr rfl)⟩, trivial⟩, ⟨⟨rfl, rfl⟩, trivial⟩, ⟨⟨rfl, ?_, ?_⟩, ?_⟩, trivial⟩
    · intro w member
      obtain rfl := Finset.mem_singleton.mp member
      exact ⟨Nat.one_pos, rfl⟩
    · exact fun _ => ⟨0, Finset.mem_singleton_self 0⟩
    · exact fun _ _ => ⟨0, by decide, by decide⟩
  exact never_stranded (fun _ => 5) 100 1 (Run.of_replays_guarded pushToSleeper _ replays)

/-- The signal reaches nobody, and the pool sleeps on a task. -/
theorem pushInWindow_stranded :
    ∃ s, Run Step (sh_create_thread_pool (fun _ => 5) 100 1) pushInWindow s ∧ s.Stranded := by
  have replays : Run.Replays Enabled apply (sh_create_thread_pool (fun _ => 5) 100 1) pushInWindow := by
    refine ⟨⟨by decide, Or.inl (by decide)⟩, ⟨by decide, rfl, rfl⟩,
      ⟨rfl, rfl, by decide, by decide, by decide⟩, ⟨rfl, _, Or.inl rfl⟩,
      ⟨rfl, _, Or.inr (Or.inl rfl)⟩, ⟨rfl, _, Or.inr (Or.inr rfl)⟩, ⟨rfl, rfl⟩, ⟨rfl, ?_, ?_⟩,
      ⟨by decide, Or.inr ⟨by decide, rfl⟩⟩, ⟨by decide, Or.inl (by decide)⟩,
      ⟨by decide, Or.inl (by decide)⟩, trivial⟩
    · exact fun w member => absurd member (Finset.notMem_empty w)
    · rintro ⟨w, bound, asleep⟩
      obtain rfl := Nat.lt_one_iff.mp bound
      exact nomatch asleep
  refine ⟨_, Run.of_replays pushInWindow _ replays, by decide, ?_, ?_⟩
  · intro i
    simp [pushInWindow, apply, setPusher, thread_work, setWorker, sh_create_thread_pool, afterPop]
  · intro w bound
    obtain rfl := Nat.lt_one_iff.mp bound
    rfl

end ThreadPool

end LinuxZero.Pools
