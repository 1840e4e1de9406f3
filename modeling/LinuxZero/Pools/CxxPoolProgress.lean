import LinuxZero.Pools.CxxThreadPool
import Mathlib.Algebra.Group.Action.Defs

/-! # Wake-ups and the end of the thread pool of jobs

The condition variable is notified after the mutex is given back, and by one notification for each job. No wake-up
is lost: for every job in the queue some worker is on its way to it or a notification is still to come, as long as
a worker sleeps at all. The pool comes to rest after a bounded number of steps.
-/

namespace LinuxZero.Pools.Cxx

variable {Job : Type*}

/-- Whether the worker is on its way to the predicate, as a number. -/
def WorkerPhase.way : WorkerPhase Job → ℕ
  | lock | wait | woken | test | take => 1
  | asleep | running _ | ended => 0

/-- How many steps the worker has until it sleeps or ends, if it does not get another job. -/
def WorkerPhase.weight : WorkerPhase Job → ℕ
  | asleep | ended => 0
  | take => 1
  | test => 2
  | wait => 3
  | lock | woken => 4
  | running _ => 5

/-- Whether a notification is still to come, as a number. -/
def CallerPhase.note : CallerPhase Job → ℕ
  | notify _ => 1
  | outside | lock _ | test _ | push _ => 0

/-- The steps of `enqueue`, with what the job and the notification cause. -/
def CallerPhase.weight : CallerPhase Job → ℕ
  | outside => 0
  | notify _ => 5
  | push _ => 11
  | test _ => 12
  | lock _ => 13

def MainPhase.weight (threads : ℕ) : MainPhase → ℕ
  | before | returned => 0
  | join i => threads - i + 1
  | notifyAll => 5 * threads + 2
  | set => 5 * threads + 3
  | lock => 5 * threads + 4

/-- The event begins something, or it is a wake-up without a reason. -/
def PoolEvent.outer : PoolEvent Job → Bool
  | enqueue _ _ | shutdown | spurious _ => true
  | worker _ | caller _ | notify _ _ | main => false

namespace ThreadPool

def way (s : ThreadPool Job) : ℕ := ∑ w ∈ Finset.range s.threads, (s.worker w).way

def notes (s : ThreadPool Job) : ℕ := ∑ t ∈ Finset.range s.callers, (s.caller t).note

/-- The steps that the pool has before it comes to rest. -/
def work (s : ThreadPool Job) : ℕ :=
  ∑ w ∈ Finset.range s.threads, (s.worker w).weight + ∑ t ∈ Finset.range s.callers, (s.caller t).weight +
    5 * s.jobs.length + s.main.weight s.threads

/-- What holds as long as a worker sleeps. -/
structure Watched (s : ThreadPool Job) : Prop where
  jobs : ∀ w < s.threads, s.worker w = .asleep → s.jobs.length ≤ s.way + s.notes
  shutdown : ∀ w < s.threads, s.worker w = .asleep → s.shutdown = true → s.main = .notifyAll

variable {s s' : ThreadPool Job} {w t : ℕ}

section Sums

theorem WorkerMoves.sum (moves : WorkerMoves w s s') (bound : w < s.threads) (f : WorkerPhase Job → ℕ) :
    ∑ v ∈ Finset.range s'.threads, f (s'.worker v) + f (s.worker w) = ∑ v ∈ Finset.range s.threads,
    f (s.worker v) + f (s'.worker w) := by
  have updated : s'.worker = Function.update s.worker w (s'.worker w) :=
    funext fun v => by
      rcases eq_or_ne v w with rfl | differ
      · rw [Function.update_self]
      · rw [Function.update_of_ne differ, moves.worker v differ]
  rw [moves.threads, updated, Function.update_self]
  exact sum_moved f s.worker bound _

theorem CallerMoves.sum (moves : CallerMoves t s s') (bound : t < s.callers) (f : CallerPhase Job → ℕ) :
    ∑ u ∈ Finset.range s'.callers, f (s'.caller u) + f (s.caller t) = ∑ u ∈ Finset.range s.callers,
    f (s.caller u) + f (s'.caller t) := by
  have updated : s'.caller = Function.update s.caller t (s'.caller t) :=
    funext fun u => by
      rcases eq_or_ne u t with rfl | differ
      · rw [Function.update_self]
      · rw [Function.update_of_ne differ, moves.caller u differ]
  rw [moves.callers, updated, Function.update_self]
  exact sum_moved f s.caller bound _

theorem WorkerMoves.work (moves : WorkerMoves w s s') (bound : w < s.threads) :
    s'.work + (s.worker w).weight + 5 * s.jobs.length =
    s.work + (s'.worker w).weight + 5 * s'.jobs.length := by
  have sum := moves.sum bound WorkerPhase.weight
  unfold ThreadPool.work
  rw [moves.main, moves.callers, moves.caller]
  rw [moves.threads] at sum ⊢
  omega

theorem CallerMoves.work (moves : CallerMoves t s s') (bound : t < s.callers) :
    s'.work + (s.caller t).weight + 5 * s.jobs.length =
    s.work + (s'.caller t).weight + 5 * s'.jobs.length := by
  have sum := moves.sum bound CallerPhase.weight
  unfold ThreadPool.work
  rw [moves.main, moves.threads, moves.worker]
  rw [moves.callers] at sum ⊢
  omega

/-- A worker moves that is not asleep afterwards, or falls asleep when there is nothing to do. -/
theorem Watched.workerMoves (watched : Watched s) (bound : w < s.threads) (moves : WorkerMoves w s s')
    (sleeps : s'.worker w = .asleep → s'.jobs = [] ∧ s.shutdown = false)
    (balance : s'.jobs.length + (s.worker w).way ≤ s.jobs.length + (s'.worker w).way ∨
      s'.jobs = []) : Watched s' := by
  have sum := moves.sum bound WorkerPhase.way
  refine ⟨fun v bound' asleep => ?_, fun v bound' asleep set => ?_⟩ <;> rw [moves.threads] at bound' <;>
    rcases eq_or_ne v w with rfl | differ
  · rw [(sleeps asleep).1]
    exact Nat.zero_le _
  · rcases balance with balance | empty
    · have before := watched.jobs v bound' ((moves.worker v differ).symm.trans asleep)
      have notes : s'.notes = s.notes := by
        unfold notes
        rw [moves.callers, moves.caller]
      unfold way at before ⊢
      omega
    · rw [empty]
      exact Nat.zero_le _
  · cases (sleeps asleep).2.symm.trans (moves.shutdown.symm.trans set)
  · rw [moves.shutdown] at set
    exact moves.main.trans (watched.shutdown v bound' ((moves.worker v differ).symm.trans asleep) set)

theorem Watched.callerMoves (watched : Watched s) (bound : t < s.callers) (moves : CallerMoves t s s')
    (balance : s'.jobs.length + (s.caller t).note ≤ s.jobs.length + (s'.caller t).note) : Watched s' := by
  have sum := moves.sum bound CallerPhase.note
  refine ⟨fun v bound' asleep => ?_, fun v bound' asleep set => ?_⟩ <;>
    rw [moves.threads] at bound' <;> rw [moves.worker] at asleep
  · have before := watched.jobs v bound' asleep
    have way : s'.way = s.way := by
      unfold ThreadPool.way
      rw [moves.threads, moves.worker]
    unfold notes at before ⊢
    omega
  · rw [moves.shutdown] at set
    exact moves.main.trans (watched.shutdown v bound' asleep set)

end Sums

section Effects

/-- What a step of a worker does to the queue and to its own place. -/
structure WorkerEffect (w : ℕ) (s s' : ThreadPool Job) : Prop where
  moves : WorkerMoves w s s'
  sleeps : s'.worker w = .asleep → s'.jobs = [] ∧ s.shutdown = false
  balance : s'.jobs.length + (s.worker w).way ≤ s.jobs.length + (s'.worker w).way ∨ s'.jobs = []
  closer : (s'.worker w).weight + 5 * s'.jobs.length < (s.worker w).weight + 5 * s.jobs.length

/-- The same for `enqueue`. -/
structure CallerEffect (t : ℕ) (s s' : ThreadPool Job) : Prop where
  moves : CallerMoves t s s'
  balance : s'.jobs.length + (s.caller t).note ≤ s.jobs.length + (s'.caller t).note
  closer : (s'.caller t).weight + 5 * s'.jobs.length < (s.caller t).weight + 5 * s.jobs.length

theorem WorkerEffect.of_same_jobs (moves : WorkerMoves w s s') {place next : WorkerPhase Job}
    (old : s.worker w = place) (new : s'.worker w = next) (jobs : s'.jobs = s.jobs)
    (awake : next ≠ .asleep) (way : place.way ≤ next.way) (closer : next.weight < place.weight) :
    WorkerEffect w s s' where
  moves := moves
  sleeps asleep := (awake (new.symm.trans asleep)).elim
  balance := by
    rw [old, new, jobs]
    exact Or.inl (Nat.add_le_add_left way _)
  closer := by
    rw [old, new, jobs]
    exact Nat.add_lt_add_right closer _

theorem WorkerEffect.of_no_jobs (moves : WorkerMoves w s s') (jobs : s'.jobs = s.jobs)
    (empty : s.jobs = []) (sleeps : s'.worker w = .asleep → s.shutdown = false)
    (closer : (s'.worker w).weight < (s.worker w).weight) : WorkerEffect w s s' where
  moves := moves
  sleeps asleep := ⟨jobs.trans empty, sleeps asleep⟩
  balance := Or.inr (jobs.trans empty)
  closer := by
    rw [jobs]
    exact Nat.add_lt_add_right closer _

theorem CallerEffect.of_same_jobs (moves : CallerMoves t s s') {place next : CallerPhase Job}
    (old : s.caller t = place) (new : s'.caller t = next) (jobs : s'.jobs = s.jobs)
    (note : place.note ≤ next.note) (closer : next.weight < place.weight) :
    CallerEffect t s s' where
  moves := moves
  balance := by
    rw [old, new, jobs]
    exact Nat.add_le_add_left note _
  closer := by
    rw [old, new, jobs]
    exact Nat.add_lt_add_right closer _

theorem Sound.workerEffect (sound : Sound s) (enabled : s.Enabled (.worker w)) :
    WorkerEffect w s (s.workerStep w) := by
  obtain ⟨bound, can⟩ := enabled
  have fact := sound.workers w bound
  unfold ThreadPool.workerStep
  cases place : s.worker w with
  | lock | woken =>
    refine .of_same_jobs ⟨fun _ differ => Function.update_of_ne differ .., rfl⟩ place
      (worker_setWorker_self _) rfl ?_ le_rfl ?_
    · rintro ⟨⟩
    · exact Nat.lt_succ_self 3
  | wait =>
    by_cases predicate : (!s.jobs.isEmpty || s.shutdown) = true
    · simp only [if_pos predicate]
      refine .of_same_jobs (workerMoves_setWorker _) place (worker_setWorker_self _) rfl ?_ le_rfl ?_
      · rintro ⟨⟩
      · exact Nat.lt_succ_self 2
    · simp only [if_neg predicate]
      rw [Bool.or_eq_true, not_or, Bool.not_eq_true', Bool.not_eq_false, List.isEmpty_iff,
        Bool.not_eq_true] at predicate
      refine .of_no_jobs ⟨fun _ differ => Function.update_of_ne differ .., rfl⟩ rfl predicate.1
        (fun _ => predicate.2) ?_
      rw [worker_setWorker_self, place]
      exact Nat.zero_lt_succ 2
  | test =>
    by_cases last : (s.shutdown && s.jobs.isEmpty) = true
    · simp only [if_pos last]
      rw [Bool.and_eq_true, List.isEmpty_iff] at last
      refine .of_no_jobs ⟨fun _ differ => Function.update_of_ne differ .., rfl⟩ rfl last.2 ?_ ?_
      · rw [worker_setWorker_self]
        rintro ⟨⟩
      · rw [worker_setWorker_self, place]
        exact Nat.zero_lt_succ 1
    · simp only [if_neg last]
      refine .of_same_jobs (workerMoves_setWorker _) place (worker_setWorker_self _) rfl ?_ le_rfl ?_
      · rintro ⟨⟩
      · exact Nat.lt_succ_self 1
  | take =>
    rw [place] at fact
    cases jobs : s.jobs with
    | nil => exact (fact jobs).elim
    | cons job rest =>
      -- The job that is taken pays for the way back to the predicate.
      refine ⟨⟨fun _ differ => Function.update_of_ne differ .., rfl⟩, ?_, Or.inl ?_, ?_⟩ <;>
        rw [worker_setWorker_self]
      · rintro ⟨⟩
      · rw [place, jobs]
        exact le_rfl
      · rw [place, jobs]
        simp only [setWorker, WorkerPhase.weight, List.length_cons]
        omega
  | running job =>
    refine .of_same_jobs ⟨fun _ differ => Function.update_of_ne differ .., rfl⟩ place
      (worker_setWorker_self _) rfl ?_ ?_ ?_
    · rintro ⟨⟩
    · exact Nat.zero_le 1
    · exact Nat.lt_succ_self 4
  | asleep | ended =>
    rw [place] at can
    exact can.elim

theorem callerEffect (enabled : s.Enabled (.caller t)) : CallerEffect t s (s.callerStep t) := by
  obtain ⟨bound, can⟩ := enabled
  unfold ThreadPool.callerStep
  cases place : s.caller t with
  | lock job =>
    exact .of_same_jobs ⟨fun _ differ => Function.update_of_ne differ .., rfl⟩ place
      (caller_setCaller_self _) rfl le_rfl
      (Nat.lt_succ_self 12)
  | test job =>
    by_cases full : s.max_queued_requests > 0 ∧ s.jobs.length ≥ s.max_queued_requests
    · simp only [if_pos full]
      exact .of_same_jobs ⟨fun _ differ => Function.update_of_ne differ .., rfl⟩ place
        (caller_setCaller_self _) rfl le_rfl
        (Nat.zero_lt_succ 11)
    · simp only [if_neg full]
      exact .of_same_jobs (callerMoves_setCaller _) place (caller_setCaller_self _) rfl le_rfl
        (Nat.lt_succ_self 11)
  | push job =>
    refine ⟨⟨fun _ differ => Function.update_of_ne differ .., rfl⟩, ?_, ?_⟩ <;>
      rw [caller_setCaller_self, place] <;>
      simp only [setCaller, CallerPhase.note, CallerPhase.weight, List.length_append,
        List.length_singleton] <;> omega
  | outside | notify job =>
    rw [place] at can
    exact can.elim

end Effects

section Notifications

/-- `notify_one` wakes a worker: the notification becomes a worker on its way. -/
theorem Watched.wake (watched : Watched s) (bound : t < s.callers)
    (notifies : (s.caller t).note = 1) (bound' : w < s.threads) (asleep : s.worker w = .asleep)
    (returned : List (Job × Bool)) :
    Watched (({ s with returned := returned }.setCaller t .outside).setWorker w .woken) := by
  let middle := { s with returned := returned }.setCaller t .outside
  have returns : CallerMoves t s middle := ⟨fun _ differ => Function.update_of_ne differ .., rfl⟩
  have wakes : WorkerMoves w middle (middle.setWorker w .woken) := workerMoves_setWorker _
  have here : middle.worker w = .asleep := asleep
  have notes : (middle.setWorker w .woken).notes + 1 = s.notes := by
    have sum := returns.sum bound CallerPhase.note
    rwa [show middle.caller t = .outside from caller_setCaller_self _, notifies] at sum
  have way : (middle.setWorker w .woken).way = s.way + 1 := by
    have sum := wakes.sum bound' WorkerPhase.way
    rwa [worker_setWorker_self, here] at sum
  refine ⟨fun v bound asleep' => ?_, fun v bound asleep' set => ?_⟩ <;> rcases eq_or_ne v w with
      rfl | differ
  · rw [worker_setWorker_self] at asleep'
    cases asleep'
  · have before := watched.jobs v bound ((wakes.worker v differ).symm.trans asleep')
    have balance : s.way + s.notes =
      (middle.setWorker w .woken).way + (middle.setWorker w .woken).notes := by omega
    exact before.trans_eq balance
  · rw [worker_setWorker_self] at asleep'
    cases asleep'
  · exact watched.shutdown v bound ((wakes.worker v differ).symm.trans asleep') set

/-- Nobody is asleep, or was, so that nothing has to be counted. -/
theorem Watched.of_awake (awake : ∀ w < s.threads, s.worker w ≠ .asleep) : Watched s :=
  ⟨fun w bound asleep => (awake w bound asleep).elim, fun w bound asleep => (awake w bound asleep).elim⟩

theorem Watched.notifyOne (watched : Watched s) {woken : Option ℕ}
    (enabled : s.Enabled (.notify t woken)) : Watched (s.notifyOne t woken) := by
  obtain ⟨⟨bound, notifies⟩, can⟩ := enabled
  unfold ThreadPool.notifyOne
  cases place : s.caller t with
  | outside | lock | test | push =>
    rw [place] at notifies
    exact notifies.elim
  | notify job =>
    cases woken with
    | none => exact .of_awake can
    | some w => exact watched.wake bound (congrArg CallerPhase.note place) can.1 can.2 _

theorem Watched.mainStep (watched : Watched s) (sound : Sound s) (enabled : s.Enabled .main) :
    Watched s.mainStep := by
  unfold Enabled at enabled
  have fact := sound.main
  unfold ThreadPool.mainStep
  cases place : s.main with
  | before | returned =>
    rw [place] at enabled
    exact enabled.elim
  | lock =>
    rw [place] at fact
    exact ⟨watched.jobs, fun w bound asleep set => by cases fact.symm.trans set⟩
  | set => exact ⟨watched.jobs, fun _ _ _ _ => rfl⟩
  | notifyAll =>
    refine .of_awake fun w _ asleep => ?_
    have notified : (s.worker w).notified ≠ .asleep := by cases s.worker w <;> rintro ⟨⟩
    exact notified asleep
  | join i =>
    rw [place] at fact
    refine ⟨watched.jobs, fun w bound asleep _ => ?_⟩
    cases place.symm.trans (watched.shutdown w bound asleep fact.1)

theorem Watched.step {event : PoolEvent Job} (watched : Watched s) (sound : Sound s)
    (step : Step s event s') : Watched s' := by
  obtain ⟨enabled, rfl⟩ := step
  cases event with
  | worker w =>
    have effect := sound.workerEffect enabled
    exact watched.workerMoves enabled.1 effect.moves effect.sleeps effect.balance
  | caller t =>
    have effect := callerEffect enabled
    exact watched.callerMoves enabled.1 effect.moves effect.balance
  | notify t woken => exact watched.notifyOne enabled
  | main => exact watched.mainStep sound enabled
  | spurious w =>
    refine watched.workerMoves enabled.1 (workerMoves_setWorker _) (fun asleep => ?_) (Or.inl ?_)
    · cases (worker_setWorker_self _).symm.trans asleep
    · rw [apply, worker_setWorker_self, enabled.2]
      exact Nat.le_succ _
  | enqueue t job =>
    obtain ⟨bound, can⟩ := enabled
    refine watched.callerMoves bound (callerMoves_setCaller _) ?_
    cases place : s.caller t with
    | outside => exact Nat.le_add_right ..
    | lock | test | push | notify =>
      rw [place] at can
      exact can.elim
  | shutdown =>
    have fact := sound.main
    rw [show s.main = .before from enabled] at fact
    exact ⟨watched.jobs, fun w bound asleep set => by cases fact.symm.trans set⟩

end Notifications

section Work

/-- Every step brings the pool closer to its rest. -/
theorem Sound.work_lt {event : PoolEvent Job} (sound : Sound s) (step : Step s event s')
    (inner : event.outer = false) : s'.work < s.work := by
  obtain ⟨enabled, rfl⟩ := step
  cases event with
  | enqueue | shutdown | spurious => cases inner
  | worker w =>
    have effect := sound.workerEffect enabled
    have work := effect.moves.work enabled.1
    have closer := effect.closer
    rw [apply]
    omega
  | caller t =>
    have effect := callerEffect enabled
    have work := effect.moves.work enabled.1
    have closer := effect.closer
    rw [apply]
    omega
  | notify t woken =>
    obtain ⟨⟨bound, notifies⟩, can⟩ := enabled
    simp only [apply, ThreadPool.notifyOne]
    cases place : s.caller t with
    | outside | lock | test | push =>
      rw [place] at notifies
      exact notifies.elim
    | notify job =>
      let middle := { s with returned := s.returned ++ [(job, true)] }.setCaller t .outside
      have returns : CallerMoves t s middle := ⟨fun _ differ => Function.update_of_ne differ .., rfl⟩
      have work : middle.work + 5 = s.work := by
        have work := returns.work bound
        rw [place, show middle.caller t = .outside from caller_setCaller_self _] at work
        exact Nat.add_right_cancel work
      cases woken with
      | none =>
        change middle.work < s.work
        omega
      | some w =>
        have wakes : WorkerMoves w middle (middle.setWorker w .woken) := workerMoves_setWorker _
        have work' : (middle.setWorker w .woken).work = middle.work + 4 := by
          have work := wakes.work can.1
          rw [worker_setWorker_self, show middle.worker w = .asleep from can.2] at work
          exact Nat.add_right_cancel work
        change (middle.setWorker w .woken).work < s.work
        omega
  | main =>
    unfold Enabled at enabled
    simp only [apply, ThreadPool.mainStep]
    cases place : s.main with
    | before | returned =>
      rw [place] at enabled
      exact enabled.elim
    | lock | set =>
      simp only [work, place, MainPhase.weight]
      omega
    | join i =>
      simp only [work, place]
      split <;> simp only [MainPhase.weight] <;> omega
    | notifyAll =>
      -- Each worker is woken at most once.
      have woken : ∑ w ∈ Finset.range s.threads, (s.worker w).notified.weight ≤
          ∑ w ∈ Finset.range s.threads, ((s.worker w).weight + 4) := by
        refine Finset.sum_le_sum fun w _ => ?_
        cases s.worker w <;> simp only [WorkerPhase.notified, WorkerPhase.weight] <;> omega
      rw [Finset.sum_add_distrib, Finset.sum_const, Finset.card_range, smul_eq_mul] at woken
      simp only [work, place, MainPhase.weight]
      omega

/-- An event from outside causes a bounded number of steps. -/
theorem work_outer {event : PoolEvent Job} (step : Step s event s') (outer : event.outer = true) :
    s'.work ≤ s.work + (5 * s.threads + 13) := by
  obtain ⟨enabled, rfl⟩ := step
  cases event with
  | worker | caller | notify | main => cases outer
  | enqueue t job =>
    have work := (callerMoves_setCaller (s := s) (t := t) (.lock job)).work enabled.1
    rw [caller_setCaller_self] at work
    simp only [apply, CallerPhase.weight] at work ⊢
    have same : (s.setCaller t (.lock job)).jobs = s.jobs := rfl
    rw [same] at work
    omega
  | spurious w =>
    have work := (workerMoves_setWorker (s := s) (w := w) .woken).work enabled.1
    rw [worker_setWorker_self] at work
    simp only [apply, WorkerPhase.weight] at work ⊢
    have same : (s.setWorker w .woken).jobs = s.jobs := rfl
    rw [same] at work
    omega
  | shutdown =>
    have before : s.main = .before := enabled
    simp only [apply, work, before, MainPhase.weight]
    omega

end Work

section Rest

/-- No thread has a step. -/
def AtRest (s : ThreadPool Job) : Prop := ∀ event, PoolEvent.outer event = false → ¬ s.Enabled event

/-- Who is inside of the lock has a step. -/
theorem AtRest.mutex (rest : s.AtRest) (sound : Sound s) : s.mutex = none := by
  cases owner : s.mutex with
  | none => rfl
  | some u =>
    have inside := (sound.guarded u).mp owner
    cases u with
    | worker w =>
      refine (rest (.worker w) rfl ⟨inside.1, ?_⟩).elim
      have place := inside.2
      cases phase : s.worker w with
      | wait | test | take => trivial
      | lock | asleep | woken | running | ended =>
        rw [phase] at place
        exact place.elim
    | caller t =>
      refine (rest (.caller t) rfl ⟨inside.1, ?_⟩).elim
      have place := inside.2
      cases phase : s.caller t with
      | test | push => trivial
      | outside | lock | notify =>
        rw [phase] at place
        exact place.elim
    | main =>
      refine (rest .main rfl ?_).elim
      rw [Enabled, show s.main = .set from inside]
      trivial

theorem AtRest.worker (rest : s.AtRest) (sound : Sound s) (bound : w < s.threads) : s.worker w =
    .asleep ∨ s.worker w = .ended := by
  have stuck := rest (.worker w) rfl
  cases place : s.worker w with
  | asleep => exact Or.inl rfl
  | ended => exact Or.inr rfl
  | lock | woken =>
    simp only [Enabled, place] at stuck
    exact (stuck ⟨bound, rest.mutex sound⟩).elim
  | wait | test | take | running =>
    simp only [Enabled, place] at stuck
    exact (stuck ⟨bound, trivial⟩).elim

theorem AtRest.caller (rest : s.AtRest) (sound : Sound s) (bound : t < s.callers) : s.caller t =
    .outside := by
  have stuck := rest (.caller t) rfl
  cases place : s.caller t with
  | outside => rfl
  | lock =>
    simp only [Enabled, place] at stuck
    exact (stuck ⟨bound, rest.mutex sound⟩).elim
  | test | push =>
    simp only [Enabled, place] at stuck
    exact (stuck ⟨bound, trivial⟩).elim
  | notify job =>
    have notifies : (s.caller t).Notifies := place ▸ trivial
    by_cases asleep : ∃ w < s.threads, s.worker w = .asleep
    · obtain ⟨w, bound', asleep⟩ := asleep
      exact (rest (.notify t (some w)) rfl ⟨⟨bound, notifies⟩, bound', asleep⟩).elim
    · exact (rest (.notify t none) rfl ⟨⟨bound, notifies⟩,
        fun w bound' sleeps => asleep ⟨w, bound', sleeps⟩⟩).elim

/-- A worker that sleeps leaves no job behind. -/
theorem AtRest.jobs (rest : s.AtRest) (sound : Sound s) (watched : Watched s)
    (bound : w < s.threads) (asleep : s.worker w = .asleep) :
    s.jobs = [] := by
  have way : s.way = 0 := Finset.sum_eq_zero fun v member => by
    rcases rest.worker sound (Finset.mem_range.mp member) with phase | phase <;> rw [phase] <;> rfl
  have notes : s.notes = 0 := Finset.sum_eq_zero fun t member => by
    rw [rest.caller sound (Finset.mem_range.mp member)]
    rfl
  have few := watched.jobs w bound asleep
  rw [way, notes] at few
  exact List.length_eq_zero_iff.mp (Nat.le_zero.mp few)

/-- The shutdown has not begun and the workers sleep, or it has returned and they have ended. -/
theorem AtRest.main (rest : s.AtRest) (sound : Sound s) (watched : Watched s) :
    s.main = .before ∧ (∀ w < s.threads, s.worker w = .asleep) ∨ s.main = .returned ∧
    ∀ w < s.threads, s.worker w = .ended := by
  have stuck := rest .main rfl
  have fact := sound.main
  unfold Enabled at stuck
  cases place : s.main with
  | before =>
    rw [place] at fact
    refine Or.inl ⟨rfl, fun w bound => (rest.worker sound bound).resolve_right fun ended => ?_⟩
    have known := sound.workers w bound
    rw [ended] at known
    cases fact.symm.trans known.1
  | returned =>
    rw [place] at fact
    exact Or.inr ⟨rfl, fact.2⟩
  | lock =>
    rw [place] at stuck
    exact (stuck (rest.mutex sound)).elim
  | set | notifyAll =>
    rw [place] at stuck
    exact (stuck trivial).elim
  | join i =>
    rw [place] at stuck fact
    refine (stuck fun bound => (rest.worker sound bound).resolve_left fun asleep => ?_).elim
    cases place.symm.trans (watched.shutdown i bound asleep fact.1)

end Rest

section Completion

theorem watched_construct (n mqr callers : ℕ) : Watched (construct n mqr callers : ThreadPool Job) :=
  .of_awake fun _ _ => by rintro ⟨⟩

theorem work_construct (n mqr callers : ℕ) : (construct n mqr callers : ThreadPool Job).work = 4 * n := by
  have workers : ∑ _w ∈ Finset.range n, (WorkerPhase.lock : WorkerPhase Job).weight = n * 4 := by
    rw [Finset.sum_const, Finset.card_range, smul_eq_mul]
    rfl
  have outside : ∑ _t ∈ Finset.range callers, (CallerPhase.outside : CallerPhase Job).weight = 0 :=
    Finset.sum_eq_zero fun _ _ => rfl
  have work : (construct n mqr callers : ThreadPool Job).work =
      ∑ _w ∈ Finset.range n, (WorkerPhase.lock : WorkerPhase Job).weight +
        ∑ _t ∈ Finset.range callers, (CallerPhase.outside : CallerPhase Job).weight := rfl
  rw [work, workers, outside]
  omega

/-- However the threads are scheduled, the pool comes to rest after a number of steps that the calls and the spurious
wake-ups bound. Then every job has run, all callers have returned and the workers sleep, or the shutdown has returned
and the workers have ended; neither a job, a caller nor the shutdown waits for a wake-up that does not come. -/
theorem thread_pool_completes {n mqr callers : ℕ} {events : List (PoolEvent Job)}
    (run : Run Step (construct n mqr callers) events s) :
    events.length ≤ 4 * n + (5 * n + 14) * events.countP PoolEvent.outer ∧
      (s.AtRest → (∀ t < callers, s.caller t = .outside) ∧
        (s.main = .before ∧ (∀ w < n, s.worker w = .asleep) ∧
            (0 < n → s.jobs = [] ∧ (s.accepted : Multiset Job) = s.finished) ∨
          s.main = .returned ∧ ∀ w < n, s.worker w = .ended)) := by
  obtain ⟨sound, watched, spent⟩ := run.history
    (fun events s => Sound s ∧ Watched s ∧
    events.length + s.work ≤ 4 * n + (5 * s.threads + 14) * events.countP PoolEvent.outer)
    (fun events s event s' ⟨sound, watched, spent⟩ step => by
      refine ⟨sound.step step, watched.step sound step, ?_⟩
      rw [List.length_append, List.length_singleton, List.countP_append, step.threads.1, Nat.mul_add]
      cases outer : event.outer with
      | false =>
        have less := sound.work_lt step outer
        omega
      | true =>
        have more := work_outer step outer
        rw [List.countP_singleton, if_pos outer]
        omega)
    ⟨sound_construct n mqr callers, watched_construct n mqr callers, by
      rw [work_construct]
      exact (Nat.zero_add _).trans_le (Nat.le_add_right ..)⟩
  obtain ⟨threads, others, _⟩ := construct_run run
  rw [threads] at spent
  refine ⟨(Nat.le_add_right ..).trans spent,
    fun rest => ⟨fun t bound => rest.caller sound (others.symm ▸ bound), ?_⟩⟩
  have main := rest.main sound watched
  rw [threads] at main
  refine main.imp_left fun ⟨before, asleep⟩ => ⟨before, asleep, fun some => ?_⟩
  have jobs := rest.jobs sound watched (threads.symm ▸ some) (asleep 0 some)
  have jobless : ∑ w ∈ Finset.range s.threads, (s.worker w).job = 0 :=
    Finset.sum_eq_zero fun w member => by
    rw [asleep w (threads ▸ Finset.mem_range.mp member)]
    rfl
  refine ⟨jobs, ?_⟩
  rw [sound.queue, jobs, List.append_nil, sound.ran, jobless, add_zero]

theorem atRest_oneJob : (oneJob.foldl apply (construct 1 1 1)).AtRest := by
  rintro event inner
  cases event with
  | worker w =>
    rintro ⟨bound, can⟩
    obtain rfl : w = 0 := Nat.lt_one_iff.mp bound
    exact can
  | caller t =>
    rintro ⟨bound, can⟩
    obtain rfl : t = 0 := Nat.lt_one_iff.mp bound
    exact can
  | notify t woken =>
    rintro ⟨⟨bound, can⟩, _⟩
    obtain rfl : t = 0 := Nat.lt_one_iff.mp bound
    exact can
  | main => exact id
  | enqueue | shutdown | spurious => contradiction

theorem oneJob_completes : ∃ s : ThreadPool ℕ, Run Step (construct 1 1 1) oneJob s ∧
    oneJob.length ≤ 4 * 1 + (5 * 1 + 14) * oneJob.countP PoolEvent.outer ∧ s.AtRest ∧
      (∀ t < 1, s.caller t = .outside) ∧ s.main = .returned ∧ ∀ w < 1, s.worker w = .ended := by
  obtain ⟨few, settled⟩ := thread_pool_completes run_oneJob
  obtain ⟨outside, ⟨before, _⟩ | ended⟩ := settled atRest_oneJob
  · contradiction
  · exact ⟨_, run_oneJob, few, atRest_oneJob, outside, ended⟩

end Completion

end ThreadPool

end LinuxZero.Pools.Cxx
