import LinuxZero.Lib.Monitor
import LinuxZero.Lib.Run
import LinuxZero.Lib.ThreadSum
import Mathlib.Algebra.Order.Group.Multiset

/-! # The thread pool of jobs

The C++ `ThreadPool` has one mutex, one condition variable and a deque of jobs. Workers wait for a job or for the
shutdown; `enqueue` adds a job unless the deque is full, and notifies one worker; `shutdown` sets the flag, notifies
all workers and joins them one after the other. The threads are cut at every access to what they share.
-/

namespace LinuxZero.Pools.Cxx

/-- Where a worker is in its loop. -/
inductive WorkerPhase (Job : Type*)
  /-- Before the lock is taken. -/
  | lock
  /-- Has the lock; the predicate of `wait` is next. -/
  | wait
  | asleep
  /-- Notified, or woken up for no reason; the lock is next. -/
  | woken
  /-- Has the lock, and the predicate was true. -/
  | test
  /-- Has the lock; `front` and `pop_front` are next. -/
  | take
  | running (job : Job)
  | ended
deriving DecidableEq, Repr

/-- Where a thread is in `enqueue`. -/
inductive CallerPhase (Job : Type*)
  | outside
  | lock (job : Job)
  /-- Has the lock; the test of the length is next. -/
  | test (job : Job)
  /-- Has the lock; `push_back` is next. -/
  | push (job : Job)
  /-- Before `notify_one`. -/
  | notify (job : Job)
deriving DecidableEq, Repr

/-- Where the thread of `shutdown` is. -/
inductive MainPhase
  | before
  | lock
  | set
  | notifyAll
  /-- Before the thread with this number is joined. -/
  | join (i : ℕ)
  | returned
deriving DecidableEq, Repr

inductive PoolThread
  | worker (w : ℕ)
  | caller (t : ℕ)
  | main
deriving DecidableEq, Repr

/-- The pool and its threads. `accepted`, `started` and `finished` are the jobs that were queued, taken and run so
far, `returned` are the answers of `enqueue`, and `before` is how many jobs were queued ahead of the shutdown. -/
structure ThreadPool (Job : Type*) where
  threads : ℕ
  callers : ℕ
  max_queued_requests : ℕ
  jobs : List Job := []
  shutdown : Bool := false
  mutex : Option PoolThread := none
  worker : ℕ → WorkerPhase Job := fun _ => .lock
  caller : ℕ → CallerPhase Job := fun _ => .outside
  main : MainPhase := .before
  accepted : List Job := []
  started : List Job := []
  finished : List Job := []
  returned : List (Job × Bool) := []
  before : ℕ := 0

inductive PoolEvent (Job : Type*)
  | enqueue (t : ℕ) (job : Job)
  | shutdown
  /-- The next step of a worker. -/
  | worker (w : ℕ)
  /-- The next step of a caller, up to `notify_one`. -/
  | caller (t : ℕ)
  /-- `notify_one`, with the worker that it wakes up. -/
  | notify (t : ℕ) (woken : Option ℕ)
  | main
  /-- `wait` returns without a notification. -/
  | spurious (w : ℕ)
deriving DecidableEq, Repr

variable {Job : Type*}

namespace WorkerPhase

/-- The worker has the lock. -/
def Inside : WorkerPhase Job → Prop
  | wait | test | take => True
  | _ => False

/-- The jobs that the worker runs. -/
def job : WorkerPhase Job → Multiset Job
  | running job => {job}
  | _ => 0

/-- What `notify_all` does to a worker. -/
def notified : WorkerPhase Job → WorkerPhase Job
  | asleep => woken
  | phase => phase

end WorkerPhase

namespace CallerPhase

def Inside : CallerPhase Job → Prop
  | test _ | push _ => True
  | _ => False

def Notifies : CallerPhase Job → Prop
  | notify _ => True
  | _ => False

/-- The jobs that are queued while `enqueue` has not returned. -/
def queued : CallerPhase Job → Multiset Job
  | notify job => {job}
  | _ => 0

end CallerPhase

namespace ThreadPool

section Functions

variable (s : ThreadPool Job)

def setWorker (w : ℕ) (phase : WorkerPhase Job) : ThreadPool Job :=
  { s with worker := Function.update s.worker w phase }

def setCaller (t : ℕ) (phase : CallerPhase Job) : ThreadPool Job :=
  { s with caller := Function.update s.caller t phase }

/-- The next step of `worker::operator()`. -/
def workerStep (w : ℕ) : ThreadPool Job :=
  match s.worker w with
  | .lock | .woken => { s with mutex := some (.worker w) }.setWorker w .wait
  | .wait =>
    if !s.jobs.isEmpty || s.shutdown then s.setWorker w .test
    else { s with mutex := none }.setWorker w .asleep
  | .test =>
    if s.shutdown && s.jobs.isEmpty then { s with mutex := none }.setWorker w .ended
    else s.setWorker w .take
  | .take =>
    match s.jobs with
    | job :: rest => { s with mutex := none, jobs := rest, started := s.started ++ [job] }.setWorker
        w (.running job)
    | [] => s
  | .running job => { s with finished := s.finished ++ [job] }.setWorker w .lock
  | .asleep | .ended => s

/-- The next step of `enqueue` up to the notification. -/
def callerStep (t : ℕ) : ThreadPool Job :=
  match s.caller t with
  | .lock job => { s with mutex := some (.caller t) }.setCaller t (.test job)
  | .test job =>
    if s.max_queued_requests > 0 ∧ s.jobs.length ≥ s.max_queued_requests then
      { s with mutex := none, returned := s.returned ++ [(job, false)] }.setCaller t .outside
    else s.setCaller t (.push job)
  | .push job =>
    { s with mutex := none, jobs := s.jobs ++ [job], accepted := s.accepted ++ [job] }.setCaller t
      (.notify job)
  | .outside | .notify _ => s

/-- `notify_one`, and the return of `enqueue`. -/
def notifyOne (t : ℕ) (woken : Option ℕ) : ThreadPool Job :=
  match s.caller t with
  | .notify job =>
    let s := { s with returned := s.returned ++ [(job, true)] }.setCaller t .outside
    match woken with
    | some w => s.setWorker w .woken
    | none => s
  | _ => s

/-- The next step of `shutdown`. -/
def mainStep : ThreadPool Job :=
  match s.main with
  | .lock => { s with mutex := some .main, main := .set }
  | .set => { s with mutex := none, main := .notifyAll, shutdown := true, before := s.accepted.length }
  | .notifyAll => { s with main := .join 0, worker := fun w => (s.worker w).notified }
  | .join i => { s with main := if i < s.threads then .join (i + 1) else .returned }
  | .before | .returned => s

def apply : PoolEvent Job → ThreadPool Job
  | .enqueue t job => s.setCaller t (.lock job)
  | .shutdown => { s with main := .lock }
  | .worker w => s.workerStep w
  | .caller t => s.callerStep t
  | .notify t woken => s.notifyOne t woken
  | .main => s.mainStep
  | .spurious w => s.setWorker w .woken

/-- A thread waits for the mutex in `lock`, and for the end of a worker in `join`; a notification wakes a worker
that is asleep if there is one. -/
def Enabled : PoolEvent Job → Prop
  | .enqueue t _ => t < s.callers ∧ match s.caller t with
    | .outside => True
    | _ => False
  | .shutdown => s.main = .before
  | .worker w => w < s.threads ∧ match s.worker w with
    | .lock | .woken => s.mutex = none
    | .asleep | .ended => False
    | .wait | .test | .take | .running _ => True
  | .caller t => t < s.callers ∧ match s.caller t with
    | .lock _ => s.mutex = none
    | .test _ | .push _ => True
    | .outside | .notify _ => False
  | .notify t woken => (t < s.callers ∧ (s.caller t).Notifies) ∧ match woken with
    | some w => w < s.threads ∧ s.worker w = .asleep
    | none => ∀ w < s.threads, s.worker w ≠ .asleep
  | .main => match s.main with
    | .lock => s.mutex = none
    | .join i => i < s.threads → s.worker i = .ended
    | .set | .notifyAll => True
    | .before | .returned => False
  | .spurious w => w < s.threads ∧ s.worker w = .asleep

/-- Who is inside of a section of the mutex. -/
def Inside : PoolThread → Prop
  | .worker w => w < s.threads ∧ (s.worker w).Inside
  | .caller t => t < s.callers ∧ (s.caller t).Inside
  | .main => s.main = .set

end Functions

def Step (s : ThreadPool Job) (event : PoolEvent Job) (s' : ThreadPool Job) : Prop :=
  s.Enabled event ∧ s' = s.apply event

/-- What a worker knows at its place. -/
def workerKnows (s : ThreadPool Job) : WorkerPhase Job → Prop
  | .test => s.jobs ≠ [] ∨ s.shutdown = true
  | .take => s.jobs ≠ []
  | .ended => s.shutdown = true ∧ s.before ≤ s.started.length
  | _ => True

/-- What a caller knows at its place. -/
def callerKnows (s : ThreadPool Job) : CallerPhase Job → Prop
  | .push _ => 0 < s.max_queued_requests → s.jobs.length < s.max_queued_requests
  | _ => True

/-- How far the shutdown is. -/
def mainKnows (s : ThreadPool Job) : MainPhase → Prop
  | .before | .lock | .set => s.shutdown = false
  | .notifyAll => s.shutdown = true
  | .join i => s.shutdown = true ∧ ∀ w < s.threads, w < i → s.worker w = .ended
  | .returned => s.shutdown = true ∧ ∀ w < s.threads, s.worker w = .ended

structure Sound (s : ThreadPool Job) : Prop where
  guarded : Guarded s.mutex s.Inside
  queue : s.accepted = s.started ++ s.jobs
  ran : (s.started : Multiset Job) = s.finished + ∑ w ∈ Finset.range s.threads, (s.worker w).job
  room : 0 < s.max_queued_requests → s.jobs.length ≤ s.max_queued_requests
  before_le : s.before ≤ s.accepted.length
  workers : ∀ w < s.threads, s.workerKnows (s.worker w)
  callers : ∀ t < s.callers, s.callerKnows (s.caller t)
  main : s.mainKnows s.main

variable {s s' : ThreadPool Job} {w t : ℕ}

section Frames

theorem inside_worker : s.Inside (.worker w) ↔ w < s.threads ∧ (s.worker w).Inside := Iff.rfl

theorem inside_caller : s.Inside (.caller t) ↔ t < s.callers ∧ (s.caller t).Inside := Iff.rfl

/-- Only the one who is inside can lose what it knows about the jobs. -/
theorem workerKnows_frame {phase : WorkerPhase Job} (known : s.workerKnows phase)
    (shutdown : s.shutdown = true → s'.shutdown = true)
    (before : s.shutdown = true → s'.before = s.before)
    (started : s.started.length ≤ s'.started.length) (jobs : phase.Inside → s'.jobs = s.jobs) :
    s'.workerKnows phase := by
  cases phase with
  | lock | wait | asleep | woken | running => trivial
  | test => exact Or.imp (fun some => (jobs trivial).trans_ne some) shutdown known
  | take => exact (jobs trivial).trans_ne known
  | ended => exact ⟨shutdown known.1, (before known.1).trans_le (known.2.trans started)⟩

theorem callerKnows_frame {phase : CallerPhase Job} (known : s.callerKnows phase)
    (max : s'.max_queued_requests = s.max_queued_requests)
    (jobs : phase.Inside → s'.jobs = s.jobs) : s'.callerKnows phase := by
  cases phase with
  | outside | lock | test | notify => trivial
  | push =>
    change 0 < s'.max_queued_requests → s'.jobs.length < s'.max_queued_requests
    rw [jobs trivial, max]
    exact known

theorem mainKnows_frame {phase : MainPhase} (known : s.mainKnows phase) (threads : s'.threads = s.threads)
    (shutdown : s'.shutdown = s.shutdown)
    (ended : ∀ w < s.threads, s.worker w = .ended → s'.worker w = .ended) : s'.mainKnows phase := by
  cases phase with
  | before | lock | set | notifyAll => exact shutdown.trans known
  | join i => exact ⟨shutdown.trans known.1, fun w bound joined => ended w (threads ▸ bound)
      (known.2 w (threads ▸ bound) joined)⟩
  | returned => exact ⟨shutdown.trans known.1, fun w bound => ended w (threads ▸ bound)
      (known.2 w (threads ▸ bound))⟩

/-- One worker moves, with what it may change. -/
structure WorkerMoves (w : ℕ) (s s' : ThreadPool Job) : Prop where
  worker : ∀ v, v ≠ w → s'.worker v = s.worker v
  rest : s' = { s with
    worker := s'.worker, mutex := s'.mutex, jobs := s'.jobs, started := s'.started,
      finished := s'.finished }

/-- One caller moves, with what it may change. -/
structure CallerMoves (t : ℕ) (s s' : ThreadPool Job) : Prop where
  caller : ∀ u, u ≠ t → s'.caller u = s.caller u
  rest : s' = { s with
    caller := s'.caller, mutex := s'.mutex, jobs := s'.jobs, accepted := s'.accepted,
      returned := s'.returned }

namespace WorkerMoves

variable (moves : WorkerMoves w s s')

include moves

theorem threads : s'.threads = s.threads := by rw [moves.rest]
theorem callers : s'.callers = s.callers := by rw [moves.rest]
theorem max : s'.max_queued_requests = s.max_queued_requests := by rw [moves.rest]
theorem caller : s'.caller = s.caller := by rw [moves.rest]
theorem main : s'.main = s.main := by rw [moves.rest]
theorem shutdown : s'.shutdown = s.shutdown := by rw [moves.rest]
theorem accepted : s'.accepted = s.accepted := by rw [moves.rest]
theorem before : s'.before = s.before := by rw [moves.rest]

end WorkerMoves

namespace CallerMoves

variable (moves : CallerMoves t s s')

include moves

theorem threads : s'.threads = s.threads := by rw [moves.rest]
theorem callers : s'.callers = s.callers := by rw [moves.rest]
theorem max : s'.max_queued_requests = s.max_queued_requests := by rw [moves.rest]
theorem worker : s'.worker = s.worker := by rw [moves.rest]
theorem main : s'.main = s.main := by rw [moves.rest]
theorem shutdown : s'.shutdown = s.shutdown := by rw [moves.rest]
theorem before : s'.before = s.before := by rw [moves.rest]
theorem started : s'.started = s.started := by rw [moves.rest]
theorem finished : s'.finished = s.finished := by rw [moves.rest]

end CallerMoves

theorem WorkerMoves.inside (moves : WorkerMoves w s s') (u : PoolThread) (differ : u ≠ .worker w) :
    s'.Inside u ↔ s.Inside u := by
  cases u with
  | worker v =>
    have other : v ≠ w := fun same => differ (same ▸ rfl)
    rw [inside_worker, inside_worker, moves.threads, moves.worker v other]
  | caller t => rw [inside_caller, inside_caller, moves.callers, moves.caller]
  | main =>
    unfold Inside
    rw [moves.main]

theorem CallerMoves.inside (moves : CallerMoves t s s') (u : PoolThread) (differ : u ≠ .caller t) :
    s'.Inside u ↔ s.Inside u := by
  cases u with
  | worker w => rw [inside_worker, inside_worker, moves.threads, moves.worker]
  | caller v =>
    have other : v ≠ t := fun same => differ (same ▸ rfl)
    rw [inside_caller, inside_caller, moves.callers, moves.caller v other]
  | main =>
    unfold Inside
    rw [moves.main]

theorem Sound.workerMoves (sound : Sound s) (bound : w < s.threads) (moves : WorkerMoves w s s')
    (notEnded : s.worker w ≠ .ended) (guarded : Guarded s'.mutex s'.Inside)
    (queue : s'.accepted = s'.started ++ s'.jobs)
    (ran : (s'.started : Multiset Job) = s'.finished + ∑ v ∈ Finset.range s'.threads,
      (s'.worker v).job)
    (jobs : s'.jobs = s.jobs ∨ (s.worker w).Inside ∧ s'.jobs.length ≤ s.jobs.length)
    (started : s.started.length ≤ s'.started.length) (fact : s'.workerKnows (s'.worker w)) :
    Sound s' where
  guarded := guarded
  queue := queue
  ran := ran
  room := by
    have shorter : s'.jobs.length ≤ s.jobs.length := jobs.elim (fun same => same ▸ le_rfl) And.right
    rw [moves.max]
    exact fun positive => shorter.trans (sound.room positive)
  before_le := by
    rw [moves.before, moves.accepted]
    exact sound.before_le
  workers v bound' := by
    rw [moves.threads] at bound'
    rcases eq_or_ne v w with rfl | differ
    · exact fact
    · rw [moves.worker v differ]
      refine workerKnows_frame (sound.workers v bound') (fun set => moves.shutdown.trans set)
        (fun _ => moves.before) started
        fun inside => ?_
      refine jobs.resolve_right fun ⟨inside', _⟩ => differ ?_
      exact PoolThread.worker.inj (sound.guarded.unique (inside_worker.mpr ⟨bound', inside⟩)
        (inside_worker.mpr ⟨bound, inside'⟩))
  callers t bound' := by
    rw [moves.callers] at bound'
    rw [moves.caller]
    refine callerKnows_frame (sound.callers t bound') moves.max fun inside => ?_
    refine jobs.resolve_right fun ⟨inside', _⟩ => ?_
    cases sound.guarded.unique (inside_caller.mpr ⟨bound', inside⟩) (inside_worker.mpr ⟨bound, inside'⟩)
  main := by
    rw [moves.main]
    refine mainKnows_frame sound.main moves.threads moves.shutdown fun v _ ended => ?_
    rcases eq_or_ne v w with rfl | differ
    · exact (notEnded ended).elim
    · rwa [moves.worker v differ]

theorem Sound.callerMoves (sound : Sound s) (bound : t < s.callers) (moves : CallerMoves t s s')
    (guarded : Guarded s'.mutex s'.Inside) (queue : s'.accepted = s'.started ++ s'.jobs)
    (longer : s.accepted.length ≤ s'.accepted.length)
    (jobs : s'.jobs = s.jobs ∨ (s.caller t).Inside)
    (room : 0 < s'.max_queued_requests → s'.jobs.length ≤ s'.max_queued_requests)
    (fact : s'.callerKnows (s'.caller t)) : Sound s' where
  guarded := guarded
  queue := queue
  ran := by
    rw [moves.started, moves.finished, moves.threads, moves.worker]
    exact sound.ran
  room := room
  before_le := by
    rw [moves.before]
    exact sound.before_le.trans longer
  workers w bound' := by
    rw [moves.threads] at bound'
    rw [moves.worker]
    refine workerKnows_frame (sound.workers w bound') (fun set => moves.shutdown.trans set)
      (fun _ => moves.before)
      (congrArg List.length moves.started).ge fun inside => ?_
    refine jobs.resolve_right fun inside' => ?_
    cases sound.guarded.unique (inside_worker.mpr ⟨bound', inside⟩) (inside_caller.mpr ⟨bound, inside'⟩)
  callers u bound' := by
    rw [moves.callers] at bound'
    rcases eq_or_ne u t with rfl | differ
    · exact fact
    · rw [moves.caller u differ]
      refine callerKnows_frame (sound.callers u bound') moves.max fun inside => ?_
      refine jobs.resolve_right fun inside' => differ ?_
      exact PoolThread.caller.inj (sound.guarded.unique (inside_caller.mpr ⟨bound', inside⟩)
        (inside_caller.mpr ⟨bound, inside'⟩))
  main := by
    rw [moves.main]
    exact mainKnows_frame sound.main moves.threads moves.shutdown fun w _ ended =>
      (congrFun moves.worker w).trans ended

end Frames

section Steps

theorem worker_setWorker_self (phase : WorkerPhase Job) : (s.setWorker w phase).worker w = phase :=
  Function.update_self ..

theorem caller_setCaller_self (phase : CallerPhase Job) : (s.setCaller t phase).caller t = phase :=
  Function.update_self ..

theorem sum_setWorker (bound : w < s.threads) (phase : WorkerPhase Job) :
    ∑ v ∈ Finset.range s.threads, ((s.setWorker w phase).worker v).job + (s.worker w).job =
      ∑ v ∈ Finset.range s.threads, (s.worker v).job + phase.job :=
  sum_moved WorkerPhase.job s.worker bound phase

/-- A worker goes on with the same jobs. -/
theorem Sound.ran_setWorker (sound : Sound s) (bound : w < s.threads) {phase : WorkerPhase Job}
    (same : phase.job = (s.worker w).job) :
    (s.started : Multiset Job) = s.finished + ∑ v ∈ Finset.range s.threads,
    ((s.setWorker w phase).worker v).job := by
  have moved := sum_setWorker bound phase
  rw [same] at moved
  rw [add_right_cancel moved]
  exact sound.ran

theorem workerMoves_setWorker (phase : WorkerPhase Job) : WorkerMoves w s (s.setWorker w phase) where
  worker _ differ := Function.update_of_ne differ ..
  rest := rfl

theorem callerMoves_setCaller (phase : CallerPhase Job) : CallerMoves t s (s.setCaller t phase) where
  caller _ differ := Function.update_of_ne differ ..
  rest := rfl

theorem Sound.worker_lock (sound : Sound s) (bound : w < s.threads)
    (place : s.worker w = .lock ∨ s.worker w = .woken) (isFree : s.mutex = none) :
    Sound ({ s with mutex := some (.worker w) }.setWorker w .wait) := by
  have moves : WorkerMoves w s ({ s with mutex := some (.worker w) }.setWorker w .wait) :=
    ⟨fun _ differ => Function.update_of_ne differ .., rfl⟩
  have guarded : Guarded none s.Inside := isFree ▸ sound.guarded
  refine sound.workerMoves bound moves ?_ (guarded.enter ?_ moves.inside) sound.queue ?_
    (Or.inl rfl) le_rfl ?_
  · rcases place with place | place <;> rw [place] <;> rintro ⟨⟩
  · exact inside_worker.mpr ⟨bound, by rw [worker_setWorker_self]; trivial⟩
  · exact sound.ran_setWorker bound (by rcases place with place | place <;> rw [place] <;> rfl)
  · rw [worker_setWorker_self]
    trivial

/-- A worker goes on inside of the lock. -/
theorem Sound.worker_stay (sound : Sound s) (bound : w < s.threads) {phase : WorkerPhase Job}
    (inside : (s.worker w).Inside) (inside' : phase.Inside) (fact : s.workerKnows phase) :
    Sound (s.setWorker w phase) := by
  have none : ∀ phase : WorkerPhase Job, phase.Inside → phase.job = 0 ∧ phase ≠ .ended := by
    intro phase inside
    cases phase <;> first | exact inside.elim | exact ⟨rfl, by rintro ⟨⟩⟩
  refine sound.workerMoves bound (workerMoves_setWorker phase) (none _ inside).2 ?_ sound.queue ?_
    (Or.inl rfl) le_rfl ?_
  · refine sound.guarded.stay ?_ (workerMoves_setWorker phase).inside
    rw [inside_worker, inside_worker, worker_setWorker_self]
    exact ⟨fun _ => ⟨bound, inside⟩, fun _ => ⟨bound, inside'⟩⟩
  · exact sound.ran_setWorker bound ((none _ inside').1.trans (none _ inside).1.symm)
  · rw [worker_setWorker_self]
    exact workerKnows_frame fact id (fun _ => rfl) le_rfl fun _ => rfl

/-- A worker leaves the lock without a job. -/
theorem Sound.worker_leave (sound : Sound s) (bound : w < s.threads) {phase : WorkerPhase Job}
    (inside : (s.worker w).Inside) (jobless : phase = .asleep ∨ phase = .ended)
    (fact : s.workerKnows phase) :
    Sound ({ s with mutex := none }.setWorker w phase) := by
  have moves : WorkerMoves w s ({ s with mutex := none }.setWorker w phase) :=
    ⟨fun _ differ => Function.update_of_ne differ .., rfl⟩
  refine sound.workerMoves bound moves ?_
    (sound.guarded.leave (inside_worker.mpr ⟨bound, inside⟩) ?_ moves.inside) sound.queue ?_
    (Or.inl rfl) le_rfl ?_
  · intro ended
    rwa [ended] at inside
  · rw [inside_worker, worker_setWorker_self]
    rcases jobless with rfl | rfl <;> exact And.right
  · refine sound.ran_setWorker bound ?_
    cases place : s.worker w with
    | lock | asleep | woken | running | ended => rw [place] at inside; exact inside.elim
    | wait | test | take => rcases jobless with rfl | rfl <;> rfl
  · rw [worker_setWorker_self]
    exact workerKnows_frame fact id (fun _ => rfl) le_rfl fun _ => rfl

theorem Sound.worker_take (sound : Sound s) (bound : w < s.threads) (place : s.worker w = .take)
    {job : Job} {rest : List Job} (jobs : s.jobs = job :: rest) :
    Sound ({ s with mutex := none, jobs := rest, started := s.started ++ [job] }.setWorker w
      (.running job)) := by
  have inside : (s.worker w).Inside := place ▸ trivial
  have moves : WorkerMoves w s
      ({ s with mutex := none, jobs := rest, started := s.started ++ [job] }.setWorker w
        (.running job)) :=
    ⟨fun _ differ => Function.update_of_ne differ .., rfl⟩
  refine sound.workerMoves bound moves ?_
    (sound.guarded.leave (inside_worker.mpr ⟨bound, inside⟩) ?_ moves.inside) ?_ ?_ ?_ ?_ ?_
  · rw [place]
    rintro ⟨⟩
  · rw [inside_worker, worker_setWorker_self]
    exact And.right
  · refine sound.queue.trans ?_
    rw [jobs]
    exact List.append_cons ..
  · have moved := sum_setWorker bound (.running job)
    rw [place] at moved
    have coe : ((s.started ++ [job] : List Job) : Multiset Job) = s.started + {job} := rfl
    refine coe.trans ?_
    rw [sound.ran, add_assoc]
    exact congrArg (_ + ·) (moved.symm.trans (add_zero _))
  · refine Or.inr ⟨inside, ?_⟩
    rw [jobs]
    exact Nat.le_succ _
  · exact (List.length_append ..).symm ▸ Nat.le_add_right ..
  · rw [worker_setWorker_self]
    trivial

theorem Sound.worker_finish (sound : Sound s) (bound : w < s.threads) {job : Job}
    (place : s.worker w = .running job) :
    Sound ({ s with finished := s.finished ++ [job] }.setWorker w .lock) := by
  have moves : WorkerMoves w s ({ s with finished := s.finished ++ [job] }.setWorker w .lock) :=
    ⟨fun _ differ => Function.update_of_ne differ .., rfl⟩
  refine sound.workerMoves bound moves ?_ (sound.guarded.stay ?_ moves.inside) sound.queue ?_
    (Or.inl rfl) le_rfl ?_
  · rw [place]
    rintro ⟨⟩
  · rw [inside_worker, inside_worker, worker_setWorker_self, place]
    exact Iff.rfl
  · have moved := sum_setWorker bound .lock
    rw [place] at moved
    have regrouped : (s.finished : Multiset Job) + (∑ v ∈ Finset.range s.threads,
      ((s.setWorker w .lock).worker v).job + {job}) =
        s.finished + {job} + ∑ v ∈ Finset.range s.threads, ((s.setWorker w .lock).worker v).job :=
      (add_assoc ..).symm.trans (add_right_comm ..)
    refine sound.ran.trans (Eq.trans ?_ regrouped)
    exact congrArg (_ + ·) (moved.trans (add_zero _)).symm
  · rw [worker_setWorker_self]
    trivial

theorem Sound.workerStep (sound : Sound s) (enabled : s.Enabled (.worker w)) :
    Sound (s.workerStep w) := by
  obtain ⟨bound, can⟩ := enabled
  have fact := sound.workers w bound
  unfold ThreadPool.workerStep
  cases place : s.worker w with
  | lock =>
    rw [place] at can
    exact sound.worker_lock bound (Or.inl place) can
  | woken =>
    rw [place] at can
    exact sound.worker_lock bound (Or.inr place) can
  | wait =>
    have inside : (s.worker w).Inside := place ▸ trivial
    by_cases predicate : (!s.jobs.isEmpty || s.shutdown) = true
    · simp only [if_pos predicate]
      refine sound.worker_stay bound inside trivial ?_
      rw [Bool.or_eq_true, Bool.not_eq_true', List.isEmpty_eq_false_iff] at predicate
      exact predicate
    · simp only [if_neg predicate]
      exact sound.worker_leave bound inside (Or.inl rfl) trivial
  | test =>
    have inside : (s.worker w).Inside := place ▸ trivial
    rw [place] at fact
    by_cases last : (s.shutdown && s.jobs.isEmpty) = true
    · simp only [if_pos last]
      rw [Bool.and_eq_true, List.isEmpty_iff] at last
      refine sound.worker_leave bound inside (Or.inr rfl) ?_
      have all := sound.queue
      rw [last.2, List.append_nil] at all
      exact ⟨last.1, sound.before_le.trans_eq (congrArg List.length all)⟩
    · simp only [if_neg last]
      refine sound.worker_stay bound inside trivial ?_
      rw [Bool.and_eq_true, List.isEmpty_iff] at last
      exact Or.elim fact id fun set empty => last ⟨set, empty⟩
  | take =>
    rw [place] at fact
    cases jobs : s.jobs with
    | nil => exact (fact jobs).elim
    | cons job rest => exact sound.worker_take bound place jobs
  | running job => exact sound.worker_finish bound place
  | asleep | ended =>
    rw [place] at can
    exact can.elim

theorem Sound.caller_lock (sound : Sound s) (bound : t < s.callers) (job : Job)
    (isFree : s.mutex = none) :
    Sound ({ s with mutex := some (.caller t) }.setCaller t (.test job)) := by
  have moves : CallerMoves t s ({ s with mutex := some (.caller t) }.setCaller t (.test job)) :=
    ⟨fun _ differ => Function.update_of_ne differ .., rfl⟩
  have guarded : Guarded none s.Inside := isFree ▸ sound.guarded
  refine sound.callerMoves bound moves (guarded.enter ?_ moves.inside) sound.queue le_rfl
    (Or.inl rfl) sound.room ?_
  · exact inside_caller.mpr ⟨bound, by rw [caller_setCaller_self]; trivial⟩
  · rw [caller_setCaller_self]
    trivial

theorem Sound.caller_reject (sound : Sound s) (bound : t < s.callers) {job : Job}
    (place : s.caller t = .test job) :
    Sound ({ s with mutex := none, returned := s.returned ++ [(job, false)] }.setCaller t .outside) := by
  have moves : CallerMoves t s
    ({ s with mutex := none, returned := s.returned ++ [(job, false)] }.setCaller t .outside) :=
    ⟨fun _ differ => Function.update_of_ne differ .., rfl⟩
  have inside : (s.caller t).Inside := place ▸ trivial
  refine sound.callerMoves bound moves
    (sound.guarded.leave (inside_caller.mpr ⟨bound, inside⟩) ?_ moves.inside) sound.queue le_rfl
    (Or.inl rfl) sound.room ?_
  · rw [inside_caller, caller_setCaller_self]
    exact And.right
  · rw [caller_setCaller_self]
    trivial

theorem Sound.caller_admit (sound : Sound s) (bound : t < s.callers) {job : Job}
    (place : s.caller t = .test job)
    (room : ¬ (s.max_queued_requests > 0 ∧ s.jobs.length ≥ s.max_queued_requests)) :
    Sound (s.setCaller t (.push job)) := by
  refine sound.callerMoves bound (callerMoves_setCaller _)
    (sound.guarded.stay ?_ (callerMoves_setCaller _).inside) sound.queue le_rfl
    (Or.inl rfl) sound.room ?_
  · rw [inside_caller, inside_caller, caller_setCaller_self, place]
    exact Iff.rfl
  · rw [caller_setCaller_self]
    exact fun positive => Nat.lt_of_not_le fun full => room ⟨positive, full⟩

theorem Sound.caller_push (sound : Sound s) (bound : t < s.callers) {job : Job}
    (place : s.caller t = .push job) :
    Sound ({ s with mutex := none, jobs := s.jobs ++ [job], accepted := s.accepted ++ [job] }.setCaller
      t (.notify job)) := by
  have moves : CallerMoves t s
      ({ s with mutex := none, jobs := s.jobs ++ [job], accepted := s.accepted ++ [job] }.setCaller
      t (.notify job)) :=
    ⟨fun _ differ => Function.update_of_ne differ .., rfl⟩
  have inside : (s.caller t).Inside := place ▸ trivial
  have room := sound.callers t bound
  rw [place] at room
  refine sound.callerMoves bound moves
    (sound.guarded.leave (inside_caller.mpr ⟨bound, inside⟩) ?_ moves.inside) ?_ ?_
    (Or.inr inside) ?_ ?_
  · rw [inside_caller, caller_setCaller_self]
    exact And.right
  · exact (congrArg (· ++ [job]) sound.queue).trans (List.append_assoc ..)
  · exact (List.length_append ..).symm ▸ Nat.le_add_right ..
  · exact fun positive => (List.length_append ..).trans_le (room positive)
  · rw [caller_setCaller_self]
    trivial

theorem Sound.callerStep (sound : Sound s) (enabled : s.Enabled (.caller t)) :
    Sound (s.callerStep t) := by
  obtain ⟨bound, can⟩ := enabled
  unfold ThreadPool.callerStep
  cases place : s.caller t with
  | lock job =>
    rw [place] at can
    exact sound.caller_lock bound job can
  | test job =>
    by_cases full : s.max_queued_requests > 0 ∧ s.jobs.length ≥ s.max_queued_requests
    · simp only [if_pos full]
      exact sound.caller_reject bound place
    · simp only [if_neg full]
      exact sound.caller_admit bound place full
  | push job => exact sound.caller_push bound place
  | outside | notify job =>
    rw [place] at can
    exact can.elim

theorem Sound.wake (sound : Sound s) (bound : w < s.threads) (asleep : s.worker w = .asleep) :
    Sound (s.setWorker w .woken) := by
  refine sound.workerMoves bound (workerMoves_setWorker _) ?_
    (sound.guarded.stay ?_ (workerMoves_setWorker _).inside) sound.queue
    (sound.ran_setWorker bound ?_) (Or.inl rfl) le_rfl ?_
  · rw [asleep]
    rintro ⟨⟩
  · rw [inside_worker, inside_worker, worker_setWorker_self, asleep]
    exact Iff.rfl
  · rw [asleep]
    rfl
  · rw [worker_setWorker_self]
    trivial

/-- A caller goes from one place outside of the lock to another one. -/
theorem Sound.caller_outside (sound : Sound s) (bound : t < s.callers)
    (returned : List (Job × Bool)) (phase : CallerPhase Job) (before : ¬ (s.caller t).Inside)
    (after : ¬ phase.Inside) : Sound ({ s with returned := returned }.setCaller t phase) := by
  have moves : CallerMoves t s ({ s with returned := returned }.setCaller t phase) :=
    ⟨fun _ differ => Function.update_of_ne differ .., rfl⟩
  refine sound.callerMoves bound moves (sound.guarded.stay ?_ moves.inside) sound.queue le_rfl
    (Or.inl rfl) sound.room ?_
  · rw [inside_caller, inside_caller, caller_setCaller_self]
    exact ⟨fun inside => (after inside.2).elim, fun inside => (before inside.2).elim⟩
  · rw [caller_setCaller_self]
    cases phase with
    | push => exact (after trivial).elim
    | outside | lock | test | notify => trivial

theorem Sound.notifyOne (sound : Sound s) {woken : Option ℕ}
    (enabled : s.Enabled (.notify t woken)) : Sound (s.notifyOne t woken) := by
  obtain ⟨⟨bound, notifies⟩, can⟩ := enabled
  unfold ThreadPool.notifyOne
  cases place : s.caller t with
  | outside | lock | test | push =>
    rw [place] at notifies
    exact notifies.elim
  | notify job =>
    have returns := sound.caller_outside bound (s.returned ++ [(job, true)]) .outside
      (by rw [place]; exact id) id
    cases woken with
    | none => exact returns
    | some w => exact returns.wake can.1 can.2

theorem Sound.main_notifyAll (sound : Sound s) (place : s.main = .notifyAll) :
    Sound { s with main := .join 0, worker := fun w => (s.worker w).notified } := by
  have inside : ∀ w, (s.worker w).notified.Inside ↔ (s.worker w).Inside := by
    intro w
    cases s.worker w <;> exact Iff.rfl
  have job : ∀ w, (s.worker w).notified.job = (s.worker w).job := by
    intro w
    cases s.worker w <;> rfl
  have set := sound.main
  rw [place] at set
  refine { sound with
    guarded := sound.guarded.stay (t := .main) ?_ fun u differ => ?_
    ran := ?_
    workers := fun w bound => ?_
    main := ⟨set, fun w _ first => (Nat.not_lt_zero w first).elim⟩ }
  · exact ⟨by rintro ⟨⟩, fun inside => by cases place.symm.trans inside⟩
  · cases u with
    | worker w => exact and_congr_right fun _ => inside w
    | caller t => exact Iff.rfl
    | main => exact (differ rfl).elim
  · simp only [job]
    exact sound.ran
  · have fact := sound.workers w bound
    change s.workerKnows (s.worker w).notified
    cases phase : s.worker w with
    | lock | wait | asleep | woken | running => trivial
    | test | take | ended =>
      rw [phase] at fact
      exact fact

theorem Sound.mainStep (sound : Sound s) (enabled : s.Enabled .main) : Sound s.mainStep := by
  unfold Enabled at enabled
  have fact := sound.main
  unfold ThreadPool.mainStep
  cases place : s.main with
  | before | returned =>
    rw [place] at enabled
    exact enabled.elim
  | notifyAll => exact sound.main_notifyAll place
  | lock =>
    rw [place] at enabled fact
    have guarded : Guarded none s.Inside := enabled ▸ sound.guarded
    refine { sound with guarded := guarded.enter rfl fun u differ => ?_, main := fact }
    cases u with
    | worker | caller => exact Iff.rfl
    | main => exact (differ rfl).elim
  | set =>
    rw [place] at fact
    refine { sound with
      guarded := sound.guarded.leave (t := .main) place (by rintro ⟨⟩) fun u differ => ?_
      before_le := le_rfl
      workers := fun w bound => workerKnows_frame (sound.workers w bound) (fun _ => rfl)
        (fun set => ?_) le_rfl fun _ => rfl
      main := rfl }
    · cases u with
      | worker | caller => exact Iff.rfl
      | main => exact (differ rfl).elim
    · cases fact.symm.trans set
  | join i =>
    rw [place] at enabled fact
    refine { sound with guarded := sound.guarded.stay (t := .main) ?_ fun u differ => ?_, main := ?_ }
    · refine ⟨fun inside => ?_, fun inside => by cases place.symm.trans inside⟩
      have next : (if i < s.threads then MainPhase.join (i + 1) else .returned) = .set := inside
      split at next <;> cases next
    · cases u with
      | worker | caller => exact Iff.rfl
      | main => exact (differ rfl).elim
    · by_cases more : i < s.threads
      · simp only [if_pos more]
        refine ⟨fact.1, fun w bound joined => ?_⟩
        rcases Nat.lt_succ_iff_lt_or_eq.mp joined with earlier | rfl
        · exact fact.2 w bound earlier
        · exact enabled more
      · simp only [if_neg more]
        exact ⟨fact.1, fun w bound => fact.2 w bound (bound.trans_le (Nat.le_of_not_lt more))⟩

theorem Sound.step {event : PoolEvent Job} (sound : Sound s) (step : Step s event s') : Sound s' := by
  obtain ⟨enabled, rfl⟩ := step
  cases event with
  | worker w => exact sound.workerStep enabled
  | caller t => exact sound.callerStep enabled
  | notify t woken => exact sound.notifyOne enabled
  | main => exact sound.mainStep enabled
  | spurious w => exact sound.wake enabled.1 enabled.2
  | enqueue t job =>
    obtain ⟨bound, can⟩ := enabled
    refine sound.caller_outside bound s.returned (.lock job) ?_ id
    cases place : s.caller t with
    | outside => exact id
    | lock | test | push | notify =>
      rw [place] at can
      exact can.elim
  | shutdown =>
    have fact := sound.main
    rw [show s.main = .before from enabled] at fact
    refine { sound with guarded := sound.guarded.stay (t := .main) ?_ fun u differ => ?_, main := fact }
    · exact ⟨by rintro ⟨⟩, fun inside => by cases (show s.main = .before from enabled).symm.trans inside⟩
    · cases u with
      | worker | caller => exact Iff.rfl
      | main => exact (differ rfl).elim

end Steps

section Answers

/-- The jobs that were queued are those that `enqueue` has answered with `true`, or will. -/
def Answered (s : ThreadPool Job) : Prop :=
  (s.accepted : Multiset Job) =
    ((s.returned.filter Prod.snd).map Prod.fst : List Job) + ∑ t ∈ Finset.range s.callers,
    (s.caller t).queued

theorem Answered.frame (answered : s.Answered) (accepted : s'.accepted = s.accepted)
    (returned : s'.returned = s.returned) (callers : s'.callers = s.callers)
    (queued : ∀ t < s.callers, (s'.caller t).queued = (s.caller t).queued) : s'.Answered := by
  unfold Answered at *
  rw [accepted, returned, callers, answered]
  exact congrArg _ (Finset.sum_congr rfl fun t member => (queued t (Finset.mem_range.mp member)).symm)

theorem queued_setCaller (phase : CallerPhase Job) (same : phase.queued = (s.caller t).queued) (u : ℕ) :
    ((s.setCaller t phase).caller u).queued = (s.caller u).queued := by
  rcases eq_or_ne u t with rfl | differ
  · rwa [caller_setCaller_self]
  · exact congrArg _ (Function.update_of_ne differ ..)

theorem sum_setCaller (bound : t < s.callers) (phase : CallerPhase Job) :
    ∑ u ∈ Finset.range s.callers, ((s.setCaller t phase).caller u).queued + (s.caller t).queued =
      ∑ u ∈ Finset.range s.callers, (s.caller u).queued + phase.queued :=
  sum_moved CallerPhase.queued s.caller bound phase

theorem Answered.workerStep (answered : s.Answered) (w : ℕ) : (s.workerStep w).Answered := by
  unfold ThreadPool.workerStep
  cases s.worker w with
  | lock | woken | running => exact answered.frame rfl rfl rfl fun _ _ => rfl
  | wait | test => split_ifs <;> exact answered.frame rfl rfl rfl fun _ _ => rfl
  | take => cases s.jobs <;> exact answered.frame rfl rfl rfl fun _ _ => rfl
  | asleep | ended => exact answered

theorem Answered.callerStep (answered : s.Answered) (bound : t < s.callers) :
    (s.callerStep t).Answered := by
  unfold ThreadPool.callerStep
  cases place : s.caller t with
  | outside | notify => exact answered
  | lock job => exact answered.frame rfl rfl rfl fun u _ => queued_setCaller _ (by rw [place]; rfl) u
  | test job =>
    simp only
    split_ifs
    · have returned : (s.returned ++ [(job, false)]).filter Prod.snd = s.returned.filter Prod.snd := by
        rw [List.filter_append, List.filter_singleton]
        exact List.append_nil _
      unfold Answered
      rw [setCaller, returned]
      exact answered.trans
        (congrArg _ (Finset.sum_congr rfl fun u _ =>
        (queued_setCaller .outside (by rw [place]; rfl) u).symm))
    · exact answered.frame rfl rfl rfl fun u _ => queued_setCaller _ (by rw [place]; rfl) u
  | push job =>
    have moved := sum_setCaller bound (.notify job)
    rw [place] at moved
    have coe : ((s.accepted ++ [job] : List Job) : Multiset Job) = s.accepted + {job} := rfl
    refine coe.trans ?_
    rw [answered, add_assoc]
    exact congrArg (_ + ·) (moved.symm.trans (add_zero _))

theorem Answered.notifyOne (answered : s.Answered) (bound : t < s.callers) (woken : Option ℕ) :
    (s.notifyOne t woken).Answered := by
  unfold ThreadPool.notifyOne
  cases place : s.caller t with
  | outside | lock | test | push => exact answered
  | notify job =>
    have returns : ({ s with returned := s.returned ++ [(job, true)] }.setCaller t
      .outside).Answered := by
      have moved := sum_setCaller bound .outside
      rw [place] at moved
      have listed : ((((s.returned ++ [(job, true)]).filter Prod.snd).map Prod.fst : List
        Job) : Multiset Job) =
          ((s.returned.filter Prod.snd).map Prod.fst : List Job) + {job} := by
        rw [List.filter_append, List.map_append]
        rfl
      have regrouped : (((s.returned.filter Prod.snd).map Prod.fst : List Job) : Multiset Job) +
            (∑ u ∈ Finset.range s.callers, ((s.setCaller t .outside).caller u).queued + {job}) =
          ((s.returned.filter Prod.snd).map Prod.fst : List Job) + {job} +
            ∑ u ∈ Finset.range s.callers, ((s.setCaller t .outside).caller u).queued :=
        (add_assoc ..).symm.trans (add_right_comm ..)
      refine answered.trans (Eq.trans ?_ (regrouped.trans (congrArg (· + _) listed.symm)))
      exact congrArg (_ + ·) (moved.trans (add_zero _)).symm
    cases woken with
    | none => exact returns
    | some w => exact returns.frame rfl rfl rfl fun _ _ => rfl

theorem Answered.mainStep (answered : s.Answered) : s.mainStep.Answered := by
  unfold ThreadPool.mainStep
  cases s.main with
  | before | returned => exact answered
  | lock | set | notifyAll | join => exact answered.frame rfl rfl rfl fun _ _ => rfl

theorem Answered.step {event : PoolEvent Job} (answered : s.Answered) (step : Step s event s') :
    s'.Answered := by
  obtain ⟨enabled, rfl⟩ := step
  cases event with
  | worker w => exact answered.workerStep w
  | caller t => exact answered.callerStep enabled.1
  | notify t woken => exact answered.notifyOne enabled.1.1 woken
  | main => exact answered.mainStep
  | spurious | shutdown => exact answered.frame rfl rfl rfl fun _ _ => rfl
  | enqueue t job =>
    refine answered.frame rfl rfl rfl fun u _ => queued_setCaller _ ?_ u
    have can := enabled.2
    cases place : s.caller t with
    | outside => rfl
    | lock | test | push | notify =>
      rw [place] at can
      exact can.elim

end Answers

section Results

/-- `ThreadPool(n, mqr)`, to be used by a number of callers. -/
def construct (n mqr callers : ℕ) : ThreadPool Job where
  threads := n
  callers := callers
  max_queued_requests := mqr

theorem sound_construct (n mqr callers : ℕ) : Sound (construct n mqr callers : ThreadPool Job) where
  guarded := by
    refine .free fun u => ?_
    cases u with
    | worker | caller => exact And.right
    | main => rintro ⟨⟩
  queue := rfl
  ran := (Finset.sum_eq_zero fun _ _ => rfl).symm.trans (zero_add _).symm
  room _ := Nat.zero_le _
  before_le := le_rfl
  workers _ _ := trivial
  callers _ _ := trivial
  main := rfl

theorem answered_construct (n mqr callers : ℕ) : (construct n mqr callers : ThreadPool Job).Answered :=
  (Finset.sum_eq_zero fun _ _ => rfl).symm.trans (zero_add _).symm

theorem Step.threads {event : PoolEvent Job} (step : Step s event s') :
    s'.threads = s.threads ∧ s'.callers = s.callers ∧ s'.max_queued_requests = s.max_queued_requests := by
  obtain ⟨_, rfl⟩ := step
  cases event with
  | enqueue | shutdown | spurious => exact ⟨rfl, rfl, rfl⟩
  | worker w =>
    simp only [apply, workerStep]
    cases s.worker w with
    | lock | woken | running | asleep | ended => exact ⟨rfl, rfl, rfl⟩
    | wait | test =>
      simp only
      split_ifs
      · exact ⟨rfl, rfl, rfl⟩
      · exact ⟨rfl, rfl, rfl⟩
    | take =>
      simp only
      cases s.jobs with
      | nil | cons => exact ⟨rfl, rfl, rfl⟩
  | caller t =>
    simp only [apply, callerStep]
    cases s.caller t with
    | lock | push | outside | notify => exact ⟨rfl, rfl, rfl⟩
    | test job =>
      simp only
      split_ifs
      · exact ⟨rfl, rfl, rfl⟩
      · exact ⟨rfl, rfl, rfl⟩
  | notify t woken =>
    simp only [apply, notifyOne]
    cases s.caller t with
    | outside | lock | test | push => exact ⟨rfl, rfl, rfl⟩
    | notify job =>
      cases woken with
      | none | some => exact ⟨rfl, rfl, rfl⟩
  | main =>
    simp only [apply, mainStep]
    cases s.main with
    | before | lock | set | notifyAll | join | returned => exact ⟨rfl, rfl, rfl⟩

theorem construct_run {n mqr callers : ℕ} {events : List (PoolEvent Job)}
    (run : Run Step (construct n mqr callers) events s) :
    s.threads = n ∧ s.callers = callers ∧ s.max_queued_requests = mqr :=
  run.invariant (fun s => s.threads = n ∧ s.callers = callers ∧ s.max_queued_requests = mqr)
    (fun _ _ _ ⟨threads, others, max⟩ step =>
      ⟨step.threads.1.trans threads, step.threads.2.1.trans others, step.threads.2.2.trans max⟩)
        ⟨rfl, rfl, rfl⟩

/-- What the pool does with its jobs. -/
structure RunsJobs (n mqr callers : ℕ) (s : ThreadPool Job) : Prop where
  /-- Each job that is queued is started once, in the order of the queue. -/
  fifo : s.accepted = s.started ++ s.jobs
  /-- Each job that is started is run once. -/
  ran : (s.started : Multiset Job) = s.finished + ∑ w ∈ Finset.range n, (s.worker w).job
  /-- `enqueue` answers `true` for those that it queues. -/
  answered : (s.accepted : Multiset Job) =
    ((s.returned.filter Prod.snd).map Prod.fst : List Job) + ∑ t ∈ Finset.range callers,
    (s.caller t).queued
  room : 0 < mqr → s.jobs.length ≤ mqr
  /-- Nobody takes a job from an empty queue. -/
  served : ∀ w < n, s.worker w = .take → s.jobs ≠ []
  ended : s.main = .returned → ∀ w < n, s.worker w = .ended
  finished : s.main = .returned → (s.started : Multiset Job) = s.finished
  /-- The jobs queued ahead of the shutdown have been started when it returns. -/
  drained : s.main = .returned → 0 < n → s.accepted.take s.before <+: s.started

theorem thread_pool_runs_jobs {n mqr callers : ℕ} {events : List (PoolEvent Job)}
    (run : Run Step (construct n mqr callers) events s) : s.RunsJobs n mqr callers := by
  have sound := run.invariant Sound (fun _ _ _ sound step => sound.step step)
    (sound_construct n mqr callers)
  have answered := run.invariant Answered (fun _ _ _ answered step => answered.step step)
    (answered_construct n mqr callers)
  obtain ⟨threads, callers, max⟩ := construct_run run
  have ran := sound.ran
  unfold Answered at answered
  rw [threads] at ran
  rw [callers] at answered
  have all : s.main = .returned → ∀ w < n, s.worker w = .ended := by
    intro returned
    have fact := sound.main
    rw [returned] at fact
    exact threads ▸ fact.2
  refine ⟨sound.queue, ran, answered, max ▸ sound.room, fun w bound place => ?_, all, fun returned => ?_,
    fun returned some => ?_⟩
  · have fact := sound.workers w (threads.symm ▸ bound)
    rwa [place] at fact
  · have jobless : ∑ w ∈ Finset.range n, (s.worker w).job = 0 :=
      Finset.sum_eq_zero fun w member => congrArg WorkerPhase.job
        (all returned w (Finset.mem_range.mp member))
    rw [ran, jobless, add_zero]
  · have ended := sound.workers 0 (threads.symm ▸ some)
    rw [all returned 0 some] at ended
    rw [sound.queue, List.take_append_of_le_length ended.2]
    exact List.take_prefix ..

/-- The worker sleeps, a job comes and is taken, and the pool is shut down while it runs. -/
def oneJob : List (PoolEvent ℕ) :=
  [.worker 0, .worker 0, .enqueue 0 7, .caller 0, .caller 0, .caller 0, .notify 0 (some 0),
    .worker 0, .worker 0, .worker 0, .worker 0, .shutdown, .main, .main, .main, .worker 0,
    .worker 0, .worker 0, .worker 0, .main, .main]

theorem run_oneJob :
    Run Step (construct 1 1 1 : ThreadPool ℕ) oneJob (oneJob.foldl apply (construct 1 1 1)) := by
  refine Run.of_replays oneJob _ ?_
  refine ⟨⟨by decide, rfl⟩, ⟨by decide, trivial⟩, ⟨by decide, trivial⟩, ⟨by decide, rfl⟩,
    ⟨by decide, trivial⟩, ⟨by decide, trivial⟩, ⟨⟨by decide, trivial⟩, by decide, rfl⟩,
    ⟨by decide, rfl⟩, ⟨by decide, trivial⟩, ⟨by decide, trivial⟩, ⟨by decide, trivial⟩,
    rfl, rfl, trivial, trivial, ⟨by decide, trivial⟩, ⟨by decide, rfl⟩, ⟨by decide, trivial⟩,
      ⟨by decide, trivial⟩,
    fun _ => rfl, fun late => absurd late (by decide), trivial⟩

theorem oneJob_runs : ∃ s : ThreadPool ℕ, Run Step (construct 1 1 1) oneJob s ∧ s.main = .returned ∧
    s.finished = [7] ∧ s.accepted.take s.before <+: s.started :=
  ⟨_, run_oneJob, rfl, rfl, (thread_pool_runs_jobs run_oneJob).drained rfl (by decide)⟩

end Results

end ThreadPool

end LinuxZero.Pools.Cxx
