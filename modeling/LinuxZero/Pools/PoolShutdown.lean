import LinuxZero.Lib.ThreadSum
import LinuxZero.Pools.PoolDestruction

/-! # What becomes of the tasks when the pool is destroyed

Workers go on taking tasks until they see `quit`; what is left when the last of them has been joined is
freed by the destroyer. A task is therefore in exactly one place: in the queue, with the worker that
runs it, with the destroyer that frees it, or done with. Once `quit` is set every thread comes closer to
its end with each step, so the destruction can be completed from every state.
-/

namespace LinuxZero.Pools

/-- The task that the worker runs. -/
def WorkerPhase.running : WorkerPhase → List Task
  | run task => [task]
  | _ => []

/-- The loop of `sh_destory_task_queue` has found the queue empty. -/
def DestroyPhase.Drained : DestroyPhase → Prop
  | drain .spinDestroy | drain .freeQueue | freeThreads | freePool | returned => True
  | _ => False

/-- How far the worker is from its end, once `quit` is set. -/
def WorkerPhase.rank : WorkerPhase → ℕ
  | exited => 0
  | leave | test => 1
  | run _ | unlock => 2
  | woken | blocked => 3
  | wait => 4
  | check => 5
  | lock => 6
  | pop => 7

/-- The steps that are left to the destroyer, other than two for each task in the queue. -/
def DestroyPhase.rank (count : ℕ) : DestroyPhase → ℕ
  | outside => count + 15
  | lock => count + 14
  | setQuit => count + 13
  | unlock => count + 12
  | broadcast => count + 11
  | join i => count - i + 10
  | condDestroy => 9
  | mutexDestroy => 8
  | drain (.free _) => 6
  | drain .pop => 5
  | drain .spinDestroy => 4
  | drain .freeQueue => 3
  | freeThreads => 2
  | freePool => 1
  | returned => 0

/-- What has been released when the destroyer is at this place. -/
def DestroyPhase.releases : DestroyPhase → List PoolResource
  | mutexDestroy => [.cond]
  | drain .freeQueue => [.cond, .mutex, .spinlock]
  | drain _ => [.cond, .mutex]
  | freeThreads => [.cond, .mutex, .spinlock, .queue]
  | freePool => [.cond, .mutex, .spinlock, .queue, .threads]
  | returned => [.cond, .mutex, .spinlock, .queue, .threads, .pool]
  | _ => []

namespace PoolDestruction

/-- The tasks that workers run. -/
def running (s : PoolDestruction) : Multiset Task :=
  ∑ w ∈ Finset.range s.pool.th_count, ((s.pool.worker w).running : Multiset Task)

/-- Where every task is. -/
structure Accounted (s : PoolDestruction) (queued : List Task) : Prop where
  queue : TaskQueue.Inv s.pool.task_queue queued
  order : s.pushed = s.taken ++ s.freed ++ s.destroyer.freeing ++ queued
  untouched : ¬ s.destroyer.Joined → s.freed = []
  ran : (s.taken : Multiset Task) = s.executed + s.running
  held : ∀ w < s.pool.th_count, ∀ task ∈ (s.pool.worker w).running, task.ptr ∈ s.pool.task_queue.held
  apart : ∀ w < s.pool.th_count, ∀ v < s.pool.th_count, ∀ task ∈ (s.pool.worker w).running,
    ∀ other ∈ (s.pool.worker v).running, task.ptr = other.ptr → w = v
  freeing : ∀ task ∈ s.destroyer.freeing, task.ptr ∈ s.pool.task_queue.held
  drained : s.destroyer.Drained → queued = []
  released : s.released = s.destroyer.releases

theorem accounted_start (mem : ℕ → ℕ) (queue count : ℕ) : Accounted (start mem queue count) [] where
  queue := TaskQueue.inv_create mem queue
  order := rfl
  untouched _ := rfl
  ran := by simp [start, running, ThreadPool.sh_create_thread_pool, WorkerPhase.running]
  held _ _ := nofun
  apart _ _ _ _ := nofun
  freeing := nofun
  drained := nofun
  released := rfl

/-- The queue after an event of the pool. -/
def queuedAfter (queued : List Task) : PoolEvent → List Task
  | .push _ task => queued ++ [task]
  | .pop .. => queued.tail
  | _ => queued

section Tasks

variable {s : PoolDestruction} {queued : List Task}

theorem queue_pool {pool : ThreadPool} (inv : TaskQueue.Inv pool.task_queue queued) {event : PoolEvent}
    (enabled : pool.Enabled event) :
    TaskQueue.Inv (pool.apply event).task_queue (queuedAfter queued event) := by
  have step := ThreadPool.Step.task_queue (s := pool) ⟨enabled, rfl⟩
  cases event with
  | worker w => exact (ThreadPool.thread_work_task_queue (s := pool) w) ▸ inv
  | done w =>
    obtain ⟨_, task, phase, _⟩ := enabled
    simp only [ThreadPool.queueEvent, phase] at step
    exact (inv.step step).1
  | spurious | mallocFails | signal => exact inv
  | pop | malloc | store | push | other => exact (inv.step step).1

theorem running_thread_work (pool : ThreadPool) (w v : ℕ) :
    ((pool.thread_work w).worker v).running = (pool.worker v).running := by
  rcases eq_or_ne v w with rfl | differ
  · cases phase : pool.worker v with
    | test | check =>
      simp only [ThreadPool.thread_work, phase, ThreadPool.setWorker, Function.update_self]
      split_ifs <;> rfl
    | lock | wait | woken | unlock | leave =>
      simp [ThreadPool.thread_work, phase, ThreadPool.setWorker, WorkerPhase.running]
    | pop | run | blocked | exited => simp only [ThreadPool.thread_work, phase]
  · rw [thread_work_worker pool differ]

/-- One worker moves on with the task that it has. -/
theorem running_update {worker : ℕ → WorkerPhase} {w : ℕ} {phase : WorkerPhase}
    (same : phase.running = (worker w).running) (v : ℕ) :
    (Function.update worker w phase v).running = (worker v).running :=
  (Function.forall_update_iff worker fun v phase => phase.running = (worker v).running).mpr
    ⟨same, fun _ _ => rfl⟩ v

theorem mem_running_update {worker : ℕ → WorkerPhase} {w v : ℕ} {phase : WorkerPhase} {task : Task}
    (member : task ∈ (Function.update worker w phase v).running) :
    v = w ∧ task ∈ phase.running ∨ v ≠ w ∧ task ∈ (worker v).running := by
  rcases eq_or_ne v w with rfl | differ
  · rw [Function.update_self] at member
    exact Or.inl ⟨rfl, member⟩
  · rw [Function.update_of_ne differ] at member
    exact Or.inr ⟨differ, member⟩

/-- Events of the pool that take no task and finish none. -/
theorem Accounted.quiet (accounted : Accounted s queued) {event : PoolEvent}
    (enabled : s.pool.Enabled event) (same : queuedAfter queued event = queued)
    (t : PoolDestruction) (unchanged : t = { s with pool := s.pool.apply event })
    (count : (s.pool.apply event).th_count = s.pool.th_count)
    (workers : ∀ v, ((s.pool.apply event).worker v).running = (s.pool.worker v).running)
    (held : (s.pool.apply event).task_queue.held = s.pool.task_queue.held) :
    Accounted t queued := by
  subst unchanged
  have queue := queue_pool accounted.queue enabled
  rw [same] at queue
  refine { accounted with queue := queue, ran := ?_, held := ?_, apart := ?_, freeing := ?_ }
  · simp only [running, count, workers]
    exact accounted.ran
  · simp only [count, workers, held]
    exact accounted.held
  · simp only [count, workers]
    exact accounted.apart
  · simp only [held]
    exact accounted.freeing

theorem freeing_early (early : ¬ s.destroyer.Joined) : s.destroyer.freeing = [] := by
  cases place : s.destroyer with
  | drain phase => exact absurd (place ▸ (by decide : 5 < 8)) early
  | _ => rfl

/-- While a worker is not at its end, the destroyer has freed no task. -/
theorem Accounted.order_early (accounted : Accounted s queued) (early : ¬ s.destroyer.Joined) :
    s.pushed = s.taken ++ queued := by
  rw [accounted.order, accounted.untouched early, freeing_early early, List.append_nil, List.append_nil]

/-- A worker inside its loop has not been joined. -/
theorem Orderly.not_joined (orderly : Orderly s) {w : ℕ} (bound : w < s.pool.th_count)
    (inside : s.pool.worker w ≠ .exited) : ¬ s.destroyer.Joined := by
  intro late
  refine inside (orderly.joined w bound ?_)
  cases place : s.destroyer <;> rw [place] at late <;>
    first | exact bound | simp [DestroyPhase.Joined, DestroyPhase.position] at late

theorem Accounted.take (accounted : Accounted s queued) (orderly : Orderly s) {w : ℕ} {task : Task}
    (enabled : s.pool.Enabled (.pop w (some task))) :
    Accounted (s.apply (.pool (.pop w (some task)))) queued.tail := by
  have inv := queue_pool accounted.queue enabled
  obtain ⟨bound, phase, popped⟩ := enabled
  have early := orderly.not_joined bound (by simp [phase])
  have first : queued.head? = some task := accounted.queue.represents.popResult_eq ▸ popped.symm
  obtain ⟨rest, rfl⟩ : ∃ rest, queued = task :: rest := by
    cases queued with
    | nil => cases first
    | cons head rest => exact ⟨rest, by rw [Option.some.inj first]⟩
  have fresh : task.ptr ∉ s.pool.task_queue.held := fun member =>
    (accounted.queue.owned.held _ member).2 task List.mem_cons_self rfl
  have held : (s.pool.task_queue.apply (.pop (some task))).held =
    insert task.ptr s.pool.task_queue.held := by
    simp only [TaskQueue.apply, ← (show some task = _ from popped)]
  have order := accounted.order_early early
  have none := freeing_early early
  have sum := sum_moved (fun phase => (phase.running : Multiset Task)) s.pool.worker bound (.run task)
  have idle : (s.pool.worker w).running = [] := by rw [phase]; rfl
  rw [idle] at sum
  have runs : ∀ v, ∀ other ∈ (Function.update s.pool.worker w (.run task) v).running,
      v = w ∧ other = task ∨ v ≠ w ∧ other ∈ (s.pool.worker v).running :=
    fun v other member => (mem_running_update member).imp_left (And.imp_right List.mem_singleton.mp)
  constructor
  case queue => exact inv
  case order =>
    change s.pushed = s.taken ++ [task] ++ s.freed ++ s.destroyer.freeing ++ rest
    rw [order, accounted.untouched early, none]
    simp
  case untouched => exact accounted.untouched
  case ran =>
    change ((s.taken ++ [task] : List Task) : Multiset Task) = s.executed +
      ∑ v ∈ Finset.range s.pool.th_count,
      ((Function.update s.pool.worker w (.run task) v).running : Multiset Task)
    rw [← Multiset.coe_add, accounted.ran, running, add_assoc]
    congr 1
    simpa [WorkerPhase.running] using sum.symm
  case held =>
    intro v below other member
    change other.ptr ∈ (s.pool.task_queue.apply (.pop (some task))).held
    rw [held]
    rcases runs v other member with ⟨_, rfl⟩ | ⟨_, old⟩
    · exact Finset.mem_insert_self ..
    · exact Finset.mem_insert_of_mem (accounted.held v below other old)
  case apart =>
    intro v below u below' one member two member' same
    rcases runs v one member with ⟨rfl, rfl⟩ | ⟨_, old⟩ <;> rcases runs u two member' with
        ⟨rfl, rfl⟩ | ⟨_, old'⟩
    · rfl
    · exact absurd (same ▸ accounted.held u below' two old') fresh
    · exact absurd (same ▸ accounted.held v below one old) fresh
    · exact accounted.apart v below u below' one old two old' same
  case freeing =>
    change ∀ other ∈ s.destroyer.freeing, _
    rw [none]
    rintro _ ⟨⟩
  case drained =>
    intro drained
    exact absurd (accounted.drained drained) (by simp)
  case released => exact accounted.released

theorem Accounted.finish (accounted : Accounted s queued) {w : ℕ} (enabled : s.pool.Enabled (.done w))
    (early : ¬ s.destroyer.Joined) : Accounted (s.apply (.pool (.done w))) queued := by
  have inv := queue_pool accounted.queue enabled
  obtain ⟨bound, task, phase, held⟩ := enabled
  have none := freeing_early early
  have busy : (s.pool.worker w).running = [task] := by rw [phase]; rfl
  have sum := sum_moved (fun phase => (phase.running : Multiset Task)) s.pool.worker bound .test
  rw [busy] at sum
  have runs : ∀ v, ∀ other ∈ (Function.update s.pool.worker w .test v).running,
      v ≠ w ∧ other ∈ (s.pool.worker v).running :=
    fun v other member => (mem_running_update member).resolve_left fun own => List.not_mem_nil own.2
  simp only [apply, note, phase, ThreadPool.apply] at inv ⊢
  refine ⟨inv, accounted.order, accounted.untouched, ?_, ?_, ?_, ?_, accounted.drained,
    accounted.released⟩
  · change (s.taken : Multiset Task) = ((s.executed ++ [task] : List Task) : Multiset Task) +
      ∑ v ∈ Finset.range s.pool.th_count,
      ((Function.update s.pool.worker w .test v).running : Multiset Task)
    rw [accounted.ran, running, ← Multiset.coe_add, add_assoc]
    congr 1
    rw [add_comm]
    simpa [WorkerPhase.running] using sum.symm
  · intro v below other member
    obtain ⟨differ, old⟩ := runs v other member
    refine Finset.mem_erase.mpr ⟨?_, accounted.held v below other old⟩
    intro same
    exact differ (accounted.apart v below w bound other old task
      (busy ▸ List.mem_singleton_self task) same)
  · intro v below u below' first member second member' same
    exact accounted.apart v below u below' first (runs v first member).2 second
      (runs u second member').2 same
  · change ∀ other ∈ s.destroyer.freeing, _
    rw [none]
    rintro _ ⟨⟩

theorem Accounted.pool (accounted : Accounted s queued) (orderly : Orderly s) {event : PoolEvent}
    (enabled : s.Enabled (.pool event)) :
    Accounted (s.apply (.pool event)) (queuedAfter queued event) := by
  obtain ⟨possible, early⟩ := enabled
  cases event with
  | worker w =>
    refine accounted.quiet possible rfl _ rfl (ThreadPool.thread_work_frame w).2
      (running_thread_work s.pool w) ?_
    exact congrArg TaskQueue.held (ThreadPool.thread_work_task_queue (s := s.pool) w)
  | pop w result =>
    cases result with
    | some task => exact accounted.take orderly possible
    | none =>
      have popped : none = s.pool.task_queue.popResult := possible.2.2
      have empty : queued = [] := by
        rw [accounted.queue.represents.popResult_eq] at popped
        exact List.head?_eq_none_iff.mp popped.symm
      subst empty
      refine accounted.quiet possible rfl _ (by simp [apply, note]) rfl (running_update ?_) ?_
      · rw [possible.2.1]
        rfl
      · simp only [ThreadPool.apply, TaskQueue.apply, ← popped, TaskQueue.popLink]
        have null : s.pool.task_queue.head = 0 := accounted.queue.represents.chain
        rw [if_neg (not_not_intro null)]
  | done w =>
    obtain ⟨task, phase, _⟩ := possible.2
    exact accounted.finish possible (orderly.not_joined possible.1 (by simp [phase]))
  | spurious w =>
    refine accounted.quiet possible rfl _ rfl rfl (running_update ?_) rfl
    rw [possible.2]
    rfl
  | malloc i task => exact accounted.quiet possible rfl _ rfl rfl (fun _ => rfl) rfl
  | mallocFails i => exact accounted.quiet possible rfl _ rfl rfl (fun _ => rfl) rfl
  | store i =>
    refine accounted.quiet possible rfl _ rfl rfl (fun _ => rfl) ?_
    simp only [ThreadPool.apply, TaskQueue.apply, TaskQueue.advancePush]
    split <;> rfl
  | push i task =>
    have inv := queue_pool accounted.queue possible
    refine ⟨inv, ?_, accounted.untouched, accounted.ran, accounted.held, accounted.apart,
      accounted.freeing, ?_, accounted.released⟩
    · change s.pushed ++ [task] = _
      rw [accounted.order, List.append_assoc]
      rfl
    · intro drained
      have outside : s.destroyer = .outside := early trivial
      change s.destroyer.Drained at drained
      rw [outside] at drained
      exact drained.elim
  | signal i woken =>
    refine accounted.quiet possible rfl _ rfl rfl ?_ rfl
    intro v
    by_cases member : v ∈ woken
    · simp only [ThreadPool.apply, if_pos member, (possible.2.1 v member).2]
      rfl
    · simp only [ThreadPool.apply, if_neg member]
  | other address value => exact accounted.quiet possible rfl _ rfl rfl (fun _ => rfl) rfl

/-- Steps of the destroyer that leave the queue alone. -/
theorem Accounted.advance (accounted : Accounted s queued) (t : PoolDestruction)
    (frame : t.pool.task_queue = s.pool.task_queue ∧ t.pool.th_count = s.pool.th_count ∧
      t.pushed = s.pushed ∧
      t.taken = s.taken ∧ t.executed = s.executed ∧ t.freed = s.freed)
    (workers : ∀ v, (t.pool.worker v).running = (s.pool.worker v).running)
    (freeing : s.destroyer.freeing = [] ∧ t.destroyer.freeing = [])
    (joined : s.destroyer.Joined → t.destroyer.Joined) (drained : t.destroyer.Drained → queued = [])
    (released : t.released = t.destroyer.releases) :
    Accounted t queued := by
  obtain ⟨queue, count, pushed, taken, executed, freed⟩ := frame
  refine ⟨queue ▸ accounted.queue, ?_, ?_, ?_, ?_, ?_, ?_, drained, released⟩
  · rw [pushed, taken, freed, freeing.2, accounted.order, freeing.1]
  · rw [freed]
    exact fun early => accounted.untouched fun late => early (joined late)
  · simp only [taken, executed, running, count, workers]
    exact accounted.ran
  · simp only [count, workers, queue]
    exact accounted.held
  · simp only [count, workers]
    exact accounted.apart
  · rw [freeing.2]
    nofun

/-- After the joins no worker runs a task. -/
theorem Orderly.running_nil (orderly : Orderly s) (late : s.destroyer.Joined) {w : ℕ}
    (bound : w < s.pool.th_count) :
    (s.pool.worker w).running = [] := by
  by_contra busy
  refine orderly.not_joined bound ?_ late
  intro exited
  rw [exited] at busy
  exact busy rfl

/-- The queue after a step of the destroyer. -/
def drainedBy (queued : List Task) : DestroyPhase → List Task
  | .drain .pop => queued.tail
  | _ => queued

/-- After the joins only the queue and what is released matter. -/
theorem Accounted.drains {rest : List Task} (accounted : Accounted s queued) (orderly : Orderly s)
    (late : s.destroyer.Joined) {t : PoolDestruction}
    (workers : t.pool.worker = s.pool.worker ∧ t.pool.th_count = s.pool.th_count)
    (taken : t.taken = s.taken ∧ t.executed = s.executed) (late' : t.destroyer.Joined)
    (queue : TaskQueue.Inv t.pool.task_queue rest)
    (order : t.pushed = t.taken ++ t.freed ++ t.destroyer.freeing ++ rest)
    (freeing : ∀ task ∈ t.destroyer.freeing, task.ptr ∈ t.pool.task_queue.held)
    (drained : t.destroyer.Drained → rest = []) (released : t.released = t.destroyer.releases) :
    Accounted t rest := by
  have idle : ∀ w < t.pool.th_count, ∀ task, task ∉ (t.pool.worker w).running := by
    intro w bound task
    rw [workers.1, orderly.running_nil late (workers.2 ▸ bound)]
    exact List.not_mem_nil
  refine ⟨queue, order, fun early => absurd late' early, ?_, ?_, ?_, freeing, drained, released⟩
  · rw [taken.1, taken.2, running, workers.1, workers.2]
    exact accounted.ran
  · exact fun w bound task member => absurd member (idle w bound task)
  · exact fun w bound _ _ task member => absurd member (idle w bound task)

theorem Accounted.drain (accounted : Accounted s queued) (orderly : Orderly s) {phase : DrainPhase}
    (place : s.destroyer = .drain phase) :
    Accounted s.sh_destory_thread_pool (drainedBy queued (.drain phase)) := by
  have late : s.destroyer.Joined := place ▸ (by decide : 5 < 8)
  have released := accounted.released
  have order := accounted.order
  have emptied := accounted.drained
  rw [place] at released order emptied
  cases phase with
  | pop =>
    have result := accounted.queue.represents.popResult_eq
    let popping : QueueEvent := .pop s.pool.task_queue.popResult
    have taken : TaskQueue.Step s.pool.task_queue popping (s.pool.task_queue.apply popping) := ⟨rfl, rfl⟩
    have inv := (accounted.queue.step taken).1
    cases queued with
    | nil =>
      rw [List.head?_nil] at result
      simp only [sh_destory_thread_pool, place, Pools.sh_destory_task_queue, result] at inv ⊢
      refine accounted.drains orderly late ⟨rfl, rfl⟩ ⟨rfl, rfl⟩ (by decide : 5 < 8) inv ?_
        (by rintro _ ⟨⟩) (fun _ => rfl) ?_
      · simpa [release, DestroyPhase.freeing, drainedBy] using order
      · simpa [release, DrainPhase.releases, DestroyPhase.releases] using released
    | cons task rest =>
      rw [List.head?_cons] at result
      simp only [sh_destory_thread_pool, place, Pools.sh_destory_task_queue, result] at inv ⊢
      refine accounted.drains orderly late ⟨rfl, rfl⟩ ⟨rfl, rfl⟩ (by decide : 5 < 8) inv ?_ ?_
        (by rintro ⟨⟩) ?_
      · simpa [release, DestroyPhase.freeing, drainedBy] using order
      · rintro other member
        obtain rfl := List.mem_singleton.mp member
        simp only [TaskQueue.apply, result]
        exact Finset.mem_insert_self ..
      · simpa [release, DrainPhase.releases, DestroyPhase.releases] using released
  | free task =>
    have member := accounted.freeing task (place ▸ List.mem_singleton_self task)
    have inv := accounted.queue.free member
    simp only [sh_destory_thread_pool, place, Pools.sh_destory_task_queue]
    refine accounted.drains orderly late ⟨rfl, rfl⟩ ⟨rfl, rfl⟩ (by decide : 5 < 8) inv ?_
      (by rintro _ ⟨⟩) (by rintro ⟨⟩) ?_
    · simpa [release, DestroyPhase.freeing, drainedBy] using order
    · simpa [release, DrainPhase.releases, DestroyPhase.releases] using released
  | spinDestroy | freeQueue =>
    have empty : queued = [] := emptied trivial
    simp only [sh_destory_thread_pool, place, Pools.sh_destory_task_queue]
    refine accounted.drains orderly late ⟨rfl, rfl⟩ ⟨rfl, rfl⟩ ?_ accounted.queue ?_
      (by rintro _ ⟨⟩) (fun _ => empty) ?_
    · simp [release, DestroyPhase.Joined, DestroyPhase.position]
    · simpa [release, DestroyPhase.freeing, drainedBy] using order
    · simp [release, DrainPhase.releases, DestroyPhase.releases, released]

theorem Accounted.destroyer_step (accounted : Accounted s queued) (orderly : Orderly s)
    (enabled : s.Enabled .destroyer) :
    Accounted s.sh_destory_thread_pool (drainedBy queued s.destroyer) := by
  have released := accounted.released
  have emptied := accounted.drained
  cases place : s.destroyer with
  | outside | returned => simp [Enabled, place] at enabled
  | drain phase => exact accounted.drain orderly place
  | lock | setQuit | unlock =>
    rw [place] at released
    simp only [sh_destory_thread_pool, place]
    refine accounted.advance _ ⟨rfl, rfl, rfl, rfl, rfl, rfl⟩ (fun _ => rfl) ⟨place ▸ rfl, rfl⟩ ?_
      (by rintro ⟨⟩) released
    rw [place]
    exact fun late => absurd late (by decide)
  | broadcast =>
    rw [place] at released
    simp only [sh_destory_thread_pool, place]
    refine accounted.advance _ ⟨rfl, rfl, rfl, rfl, rfl, rfl⟩ ?_ ⟨place ▸ rfl, rfl⟩ ?_
      (by rintro ⟨⟩) released
    · intro v
      change (if s.pool.worker v = .blocked then WorkerPhase.woken else s.pool.worker v).running = _
      by_cases asleep : s.pool.worker v = .blocked
      · rw [if_pos asleep, asleep]
        rfl
      · rw [if_neg asleep]
    · rw [place]
      exact fun late => absurd late (by decide)
  | join i =>
    rw [place] at released
    simp only [sh_destory_thread_pool, place]
    refine accounted.advance _ ⟨rfl, rfl, rfl, rfl, rfl, rfl⟩ (fun _ => rfl) ⟨place ▸ rfl, ?_⟩ ?_ ?_ ?_
    · dsimp only
      split_ifs <;> rfl
    · rw [place]
      exact fun late => absurd (show 5 < 5 from late) (by decide)
    · dsimp only
      split_ifs <;> rintro ⟨⟩
    · dsimp only
      split_ifs <;> exact released
  | condDestroy | mutexDestroy =>
    rw [place] at released
    simp only [sh_destory_thread_pool, place]
    refine accounted.advance _ ⟨rfl, rfl, rfl, rfl, rfl, rfl⟩ (fun _ => rfl) ⟨place ▸ rfl, rfl⟩ ?_
      (by rintro ⟨⟩) ?_
    · simp [release, DestroyPhase.Joined, DestroyPhase.position]
    · simp [release, released, DestroyPhase.releases]
  | freeThreads | freePool =>
    rw [place] at released emptied
    simp only [sh_destory_thread_pool, place]
    refine accounted.advance _ ⟨rfl, rfl, rfl, rfl, rfl, rfl⟩ (fun _ => rfl) ⟨place ▸ rfl, rfl⟩ ?_
      (fun _ => emptied trivial) ?_
    · simp [release, DestroyPhase.Joined, DestroyPhase.position]
    · simp [release, released, DestroyPhase.releases]

/-- The steps that are left to all threads. -/
def remaining (s : PoolDestruction) (queued : List Task) : ℕ :=
  ∑ w ∈ Finset.range s.pool.th_count, (s.pool.worker w).rank + s.destroyer.rank s.pool.th_count +
    2 * queued.length

/-- The event is a step of the destroyer or of a worker, other than a wake-up for no reason. -/
def Scheduled : DestroyEvent → Prop
  | .destroyer | .pool (.worker _) | .pool (.pop ..) | .pool (.done _) => True
  | _ => False

/-- Each step of `thread_work` leads closer to the end, except for the start of another round. -/
theorem rank_thread_work {pool : ThreadPool} {w : ℕ} (enabled : pool.Enabled (.worker w))
    (ends : pool.worker w = .test → pool.quit = 1) :
    ((pool.thread_work w).worker w).rank < (pool.worker w).rank := by
  cases phase : pool.worker w with
  | test => simp [ThreadPool.thread_work, phase, ThreadPool.setWorker, ends phase, WorkerPhase.rank]
  | check =>
    simp only [ThreadPool.thread_work, phase, ThreadPool.setWorker, Function.update_self]
    split_ifs <;> decide
  | lock | woken | wait | unlock | leave =>
    simp [ThreadPool.thread_work, phase, ThreadPool.setWorker, WorkerPhase.rank]
  | pop | run | blocked | exited =>
    rcases enabled.2 with place | ⟨place, _⟩ <;> simp [phase] at place

/-- A worker that can go on gets closer to its end, if `quit` is set or it is not at the head of its loop. -/
theorem worker_advances (orderly : Orderly s) (accounted : Accounted s queued) {w : ℕ}
    (bound : w < s.pool.th_count) (able : s.pool.worker w ≠ .exited ∧ s.pool.worker w ≠ .blocked)
    (free : s.pool.worker w ∈ [.lock, .woken] → s.pool.mutex = none)
    (ends : s.pool.worker w = .test → s.destroyer.QuitSet) :
    ∃ event, Scheduled (.pool event) ∧ s.Enabled (.pool event) ∧
      remaining (s.apply (.pool event)) (queuedAfter queued event) < remaining s queued := by
  have moves : (∃ task, s.pool.worker w = .run task) ∨ s.pool.worker w = .pop ∨
    s.pool.Enabled (.worker w) := by
    cases phase : s.pool.worker w with
    | exited => exact absurd phase able.1
    | blocked => exact absurd phase able.2
    | run task => exact Or.inl ⟨task, rfl⟩
    | pop => exact Or.inr (Or.inl rfl)
    | lock | woken => exact Or.inr (Or.inr ⟨bound, Or.inr ⟨by simp [phase], free (by simp [phase])⟩⟩)
    | test | check | wait | unlock | leave => exact Or.inr (Or.inr ⟨bound, Or.inl (by simp [phase])⟩)
  rcases moves with ⟨task, phase⟩ | phase | enabled
  · have held := accounted.held w bound task (by rw [phase]; exact List.mem_singleton_self task)
    refine ⟨.done w, trivial, ⟨⟨bound, task, phase, held⟩, by rintro ⟨⟩⟩, ?_⟩
    have sum : ∑ v ∈ Finset.range s.pool.th_count, (Function.update s.pool.worker w .test v).rank <
        ∑ v ∈ Finset.range s.pool.th_count, (s.pool.worker v).rank := by
      refine sum_closer WorkerPhase.rank bound (fun v differ => Function.update_of_ne differ ..) ?_
      rw [phase, Function.update_self]
      exact (by decide : 1 < 2)
    simp only [apply, note, phase, ThreadPool.apply]
    exact Nat.add_lt_add_right (Nat.add_lt_add_right sum _) _
  · refine ⟨.pop w s.pool.task_queue.popResult, trivial, ⟨⟨bound, phase, rfl⟩, by rintro ⟨⟩⟩, ?_⟩
    have sum : ∑ v ∈ Finset.range s.pool.th_count,
          (Function.update s.pool.worker w (ThreadPool.afterPop s.pool.task_queue.popResult) v).rank <
        ∑ v ∈ Finset.range s.pool.th_count, (s.pool.worker v).rank := by
      refine sum_closer WorkerPhase.rank bound (fun v differ => Function.update_of_ne differ ..) ?_
      rw [phase, Function.update_self]
      cases s.pool.task_queue.popResult with
      | none => exact (by decide : 6 < 7)
      | some task => exact (by decide : 2 < 7)
    have shorter : queued.tail.length ≤ queued.length := by simp
    exact Nat.add_lt_add_of_lt_of_le (Nat.add_lt_add_right sum _) (Nat.mul_le_mul_left 2 shorter)
  · refine ⟨.worker w, trivial, ⟨enabled, by rintro ⟨⟩⟩, ?_⟩
    have quit : s.pool.worker w = .test → s.pool.quit = 1 := by
      intro phase
      rw [orderly.quit, if_pos (ends phase)]
    have sum := sum_closer WorkerPhase.rank bound (fun v => thread_work_worker s.pool)
      (rank_thread_work enabled quit)
    change ∑ v ∈ Finset.range (s.pool.thread_work w).th_count, _ + s.destroyer.rank
      (s.pool.thread_work w).th_count +
      2 * queued.length < _
    rw [(ThreadPool.thread_work_frame w).2]
    exact Nat.add_lt_add_right (Nat.add_lt_add_right sum _) _

/-- Each step of the destroyer leads closer to its end. -/
theorem destroyer_advances (accounted : Accounted s queued) (enabled : s.Enabled .destroyer) :
    remaining s.sh_destory_thread_pool (drainedBy queued s.destroyer) < remaining s queued := by
  have same : ∀ (t : PoolDestruction) (rest : List Task), t.pool.th_count = s.pool.th_count →
      (∀ w, (t.pool.worker w).rank = (s.pool.worker w).rank) →
      t.destroyer.rank s.pool.th_count + 2 * rest.length < s.destroyer.rank s.pool.th_count +
      2 * queued.length →
      remaining t rest < remaining s queued := by
    intro t rest count workers closer
    simp only [remaining, count, workers]
    omega
  cases place : s.destroyer with
  | outside | returned => simp [Enabled, place] at enabled
  | broadcast =>
    simp only [sh_destory_thread_pool, place]
    refine same _ _ rfl ?_ (by simp [place, DestroyPhase.rank, drainedBy])
    intro w
    by_cases asleep : s.pool.worker w = .blocked
    · simp only [asleep]
      rfl
    · simp only [if_neg asleep]
  | join i =>
    simp only [sh_destory_thread_pool, place]
    refine same _ _ rfl (fun _ => rfl) ?_
    by_cases more : i < s.pool.th_count
    · simp only [if_pos more, place, DestroyPhase.rank, drainedBy]
      omega
    · simp only [if_neg more, place, DestroyPhase.rank, drainedBy]
      omega
  | drain phase =>
    have emptied := accounted.drained
    rw [place] at emptied
    have result := accounted.queue.represents.popResult_eq
    cases phase with
    | pop =>
      simp only [sh_destory_thread_pool, place, Pools.sh_destory_task_queue]
      refine same _ _ rfl (fun _ => rfl) ?_
      cases queued with
      | nil =>
        rw [List.head?_nil] at result
        simp [result, release, place, DestroyPhase.rank, drainedBy]
      | cons task rest =>
        rw [List.head?_cons] at result
        simp only [result, release, place, DestroyPhase.rank, drainedBy, Option.elim,
          List.tail_cons, List.length_cons]
        omega
    | free | spinDestroy | freeQueue =>
      simp only [sh_destory_thread_pool, place, Pools.sh_destory_task_queue]
      exact same _ _ rfl (fun _ => rfl) (by simp [release, place, DestroyPhase.rank, drainedBy])
  | lock | setQuit | unlock | condDestroy | mutexDestroy | freeThreads | freePool =>
    simp only [sh_destory_thread_pool, place]
    exact same _ _ rfl (fun _ => rfl) (by simp [release, place, DestroyPhase.rank, drainedBy])

/-- The queue after any event. -/
def queuedNext (s : PoolDestruction) (queued : List Task) : DestroyEvent → List Task
  | .pool event => queuedAfter queued event
  | .call => queued
  | .destroyer => drainedBy queued s.destroyer

theorem Accounted.step (accounted : Accounted s queued) (orderly : Orderly s) {event : DestroyEvent}
    {t : PoolDestruction} (step : Step s event t) : Accounted t (queuedNext s queued event) := by
  obtain ⟨enabled, rfl⟩ := step
  cases event with
  | pool event => exact accounted.pool orderly enabled
  | call =>
    have released := accounted.released
    rw [enabled.1] at released
    refine accounted.advance _ ⟨rfl, rfl, rfl, rfl, rfl, rfl⟩ (fun _ => rfl) ⟨enabled.1 ▸ rfl,
      rfl⟩ ?_ nofun released
    rw [enabled.1]
    exact fun late => absurd late (by decide)
  | destroyer => exact accounted.destroyer_step orderly enabled

/-- Whenever the destroyer has to wait, a worker it waits for can go on. -/
theorem advances (orderly : Orderly s) (accounted : Accounted s queued) (called : s.destroyer.Called)
    (inside : s.destroyer ≠ .returned) :
    ∃ event, Scheduled event ∧ s.Enabled event ∧ remaining (s.apply event)
      (queuedNext s queued event) < remaining s queued := by
  by_cases enabled : s.Enabled .destroyer
  · exact ⟨.destroyer, trivial, enabled, destroyer_advances accounted enabled⟩
  · have owner : ∀ w < s.pool.th_count, s.pool.mutex = some w →
        ∃ event, Scheduled event ∧ s.Enabled event ∧
          remaining (s.apply event) (queuedNext s queued event) < remaining s queued := by
      intro w bound owned
      have consistent := orderly.workers w bound
      have places : s.pool.worker w ∈ [.check, .wait, .unlock, .leave] := by
        cases phase : s.pool.worker w <;> rw [phase] at consistent <;> simp_all [Consistent]
      have able : s.pool.worker w ≠ .exited ∧ s.pool.worker w ≠ .blocked := by
        constructor <;> intro phase <;> simp [phase] at places
      obtain ⟨event, scheduled, possible, closer⟩ := worker_advances orderly accounted bound able
        (fun place => by simp only [List.mem_cons, List.not_mem_nil, or_false] at places place; grind)
        (fun place => by simp [place] at places)
      exact ⟨.pool event, scheduled, possible, closer⟩
    cases place : s.destroyer with
    | outside => exact absurd called (place ▸ by decide)
    | returned => exact absurd place inside
    | lock =>
      simp only [Enabled, place] at enabled
      obtain ⟨w, owned⟩ := Option.ne_none_iff_exists'.mp enabled
      have notDestroyer : s.pool.mutex ≠ some s.pool.th_count := by
        rw [Ne, ← orderly.destroyer, place]
        decide
      refine owner w (lt_of_le_of_ne (orderly.owner w owned) ?_) owned
      rintro rfl
      exact notDestroyer owned
    | join i =>
      simp only [Enabled, place, Classical.not_imp] at enabled
      obtain ⟨bound, inside⟩ := enabled
      have broadcasted : s.destroyer.Broadcasted := place ▸ (by decide : 4 < 5)
      have quit : s.destroyer.QuitSet := Nat.lt_trans (by decide) broadcasted
      have awake : s.pool.worker i ≠ .blocked := by
        intro asleep
        have consistent := orderly.workers i bound
        rw [asleep] at consistent
        exact consistent.2 broadcasted
      by_cases unlocked : s.pool.mutex = none
      · obtain ⟨event, scheduled, possible, closer⟩ :=
          worker_advances orderly accounted bound ⟨inside, awake⟩ (fun _ => unlocked) fun _ => quit
        exact ⟨.pool event, scheduled, possible, closer⟩
      · obtain ⟨w, owned⟩ := Option.ne_none_iff_exists'.mp unlocked
        have notDestroyer : s.pool.mutex ≠ some s.pool.th_count := by
          rw [Ne, ← orderly.destroyer, place]
          rintro (same | same) <;> contradiction
        refine owner w (lt_of_le_of_ne (orderly.owner w owned) ?_) owned
        rintro rfl
        exact notDestroyer owned
    | setQuit | unlock | broadcast | condDestroy | mutexDestroy | drain | freeThreads | freePool =>
      simp [Enabled, place] at enabled

theorem called_destroyer (called : s.destroyer.Called) : s.sh_destory_thread_pool.destroyer.Called := by
  cases place : s.destroyer with
  | outside => exact absurd called (place ▸ by decide)
  | join i =>
    simp only [sh_destory_thread_pool, place]
    split_ifs <;> exact Nat.succ_pos _
  | drain phase =>
    simp only [sh_destory_thread_pool, place, release]
    cases (Pools.sh_destory_task_queue s.pool.task_queue phase).2 <;> exact Nat.succ_pos _
  | _ => simp [sh_destory_thread_pool, place, release, DestroyPhase.Called, DestroyPhase.position]

/-- The threads can finish from every state inside the call, without a wake-up for no reason. -/
theorem completes (orderly : Orderly s) (accounted : Accounted s queued) (called : s.destroyer.Called) :
    ∃ later t, Run Step s later t ∧ (∀ event ∈ later, Scheduled event) ∧ t.destroyer = .returned := by
  induction left : remaining s queued using Nat.strong_induction_on generalizing s queued with
  | _ left ih =>
    by_cases ended : s.destroyer = .returned
    · exact ⟨[], s, .start, nofun, ended⟩
    · obtain ⟨event, scheduled, enabled, closer⟩ := advances orderly accounted called ended
      have step : Step s event (s.apply event) := ⟨enabled, rfl⟩
      have still : (s.apply event).destroyer.Called := by
        cases event with
        | pool event =>
          have same : (s.apply (.pool event)).destroyer = s.destroyer := by
            cases event <;> first | rfl | (simp only [apply, note]; split <;> rfl)
          exact same ▸ called
        | call => exact Nat.one_pos
        | destroyer => exact called_destroyer called
      obtain ⟨later, t, run, all, returned⟩ :=
        ih _ (left ▸ closer) (orderly.step step) (accounted.step orderly step) still rfl
      exact ⟨event :: later, t, .cons step run, List.forall_mem_cons.mpr ⟨scheduled, all⟩, returned⟩

theorem Step.th_count {event : DestroyEvent} {t : PoolDestruction} (step : Step s event t) :
    t.pool.th_count = s.pool.th_count := by
  obtain ⟨_, rfl⟩ := step
  cases event with
  | call => rfl
  | destroyer => cases place : s.destroyer <;> simp only [apply, sh_destory_thread_pool, place, release]
  | pool event =>
    cases event with
    | worker w => exact (ThreadPool.thread_work_frame w).2
    | done w =>
      simp only [apply, ThreadPool.apply]
      split <;> rfl
    | _ => rfl

/-- No deadlock: once `sh_destory_thread_pool` has been called, the threads can always bring it to its end
without a wake-up for no reason. After the broadcast nobody waits or is about to wait; after the joins no
worker has a step left. When the call returns, the tasks that were pushed are, in order, those that workers
took, all of which were executed once, and those that were freed without being executed. -/
theorem destroys_pool (mem : ℕ → ℕ) (queue count : ℕ) {events : List DestroyEvent}
    (run : Run Step (start mem queue count) events s) :
    (s.destroyer.Called → ∃ later t, Run Step s later t ∧ (∀ event ∈ later, Scheduled event) ∧
      t.destroyer = .returned) ∧
    (s.destroyer.Broadcasted → ∀ w < count, s.pool.worker w ≠ .wait ∧ s.pool.worker w ≠ .blocked) ∧
    (s.destroyer.Joined → ∀ w event, event.Of w → ¬ s.Enabled (.pool event)) ∧
    (s.destroyer = .returned → s.pushed = s.taken ++ s.freed ∧ s.taken.Perm s.executed ∧
      s.released = [.cond, .mutex, .spinlock, .queue, .threads, .pool]) := by
  obtain ⟨⟨orderly, queued, accounted⟩, threads⟩ :=
    run.invariant_with (fun s => Orderly s ∧ ∃ queued, Accounted s queued)
      (fun s => s.pool.th_count = count)
      (fun s event t known step => ⟨known.1.step step, known.2.elim fun queued accounted =>
        ⟨_, accounted.step known.1 step⟩⟩)
      (fun s event t _ threads step => step.th_count.trans threads)
      ⟨orderly_start mem queue count, [], accounted_start mem queue count⟩ rfl
  refine ⟨completes orderly accounted, ?_, ?_, ?_⟩
  · intro late w bound
    have consistent := orderly.workers w (threads.symm ▸ bound)
    constructor <;> intro phase <;> rw [phase] at consistent
    · exact consistent.2 (Nat.lt_trans (by decide) late)
    · exact consistent.2 late
  · rintro late w event own ⟨possible, _⟩
    have exited : ∀ v < s.pool.th_count, s.pool.worker v = .exited := by
      intro v bound
      by_contra inside
      exact orderly.not_joined bound inside late
    cases event with
    | worker v => rcases possible.2 with place | ⟨place, _⟩ <;> simp [exited v possible.1] at place
    | pop v result => exact nomatch (exited v possible.1).symm.trans possible.2.1
    | done v =>
      obtain ⟨bound, task, phase, _⟩ := possible
      exact nomatch (exited v bound).symm.trans phase
    | spurious v => exact nomatch (exited v possible.1).symm.trans possible.2
    | malloc | mallocFails | store | push | signal | other => exact own
  · intro returned
    have released := accounted.released
    have order := accounted.order
    rw [accounted.drained (by rw [returned]; trivial), returned, List.append_nil] at order
    have idle : s.running = 0 := by
      refine Finset.sum_eq_zero fun w member => ?_
      rw [orderly.running_nil (returned ▸ (by decide)) (Finset.mem_range.mp member), Multiset.coe_nil]
    have ran := accounted.ran
    rw [idle, add_zero] at ran
    rw [returned] at released
    exact ⟨by simpa [DestroyPhase.freeing] using order, Multiset.coe_eq_coe.mp ran, released⟩

end Tasks

/-- A task is pushed, and the only worker sees `quit` before it looks for tasks. -/
def destroyUnread : List DestroyEvent :=
  [.pool (.malloc 1 ⟨10, 7, 8⟩), .pool (.store 1), .pool (.store 1), .pool (.store 1),
    .pool (.push 1 ⟨10, 7, 8⟩), .pool (.signal 1 ∅), .call, .destroyer, .destroyer,
    .pool (.worker 0), .destroyer, .destroyer, .destroyer, .destroyer, .destroyer, .destroyer,
    .destroyer, .destroyer, .destroyer, .destroyer, .destroyer, .destroyer, .destroyer]

theorem destroyUnread_returned : ∃ s, Run Step (start (fun _ => 5) 100 1) destroyUnread s ∧
    s.destroyer = .returned ∧
    s.pushed = s.taken ++ s.freed ∧ s.taken.Perm s.executed ∧ s.freed = [⟨10, 7, 8⟩] := by
  have replays : Run.Replays Enabled apply (start (fun _ => 5) 100 1) destroyUnread := by
    refine ⟨⟨⟨rfl, rfl, by decide, by decide, by decide⟩, fun _ => rfl⟩,
      ⟨⟨rfl, _, Or.inl rfl⟩, fun _ => rfl⟩, ⟨⟨rfl, _, Or.inr (Or.inl rfl)⟩, fun _ => rfl⟩,
      ⟨⟨rfl, _, Or.inr (Or.inr rfl)⟩, fun _ => rfl⟩, ⟨⟨rfl, rfl⟩, fun _ => rfl⟩,
      ⟨⟨rfl, ?_, ?_⟩, fun _ => rfl⟩, ⟨rfl, ?_⟩, rfl, trivial,
      ⟨⟨by decide, Or.inl (by decide)⟩, nofun⟩, trivial, trivial, fun _ => rfl, nofun, trivial,
      trivial, trivial, trivial, trivial, trivial, trivial, trivial, trivial, trivial⟩
    · exact fun w member => absurd member (Finset.notMem_empty w)
    · rintro ⟨w, bound, asleep⟩
      obtain rfl := Nat.lt_one_iff.mp bound
      exact nomatch asleep
    · intro i
      simp [apply, note, ThreadPool.apply, ThreadPool.setPusher, start, ThreadPool.sh_create_thread_pool]
  have run := Run.of_replays destroyUnread _ replays
  obtain ⟨order, ran, _⟩ := (destroys_pool (fun _ => 5) 100 1 run).2.2.2 rfl
  exact ⟨_, run, rfl, order, ran, rfl⟩

end PoolDestruction

end LinuxZero.Pools
