import LinuxZero.Lib.Run
import Mathlib.Logic.Function.Basic
import Mathlib.Order.Nat
import Mathlib.Algebra.Ring.Int.Defs
import Mathlib.Algebra.Group.Nat.Defs

/-! # The recursive spinlock

`rte_spinlock_recursive_t` is a spinlock with the thread that has it and the number of times that it is taken. The
owner is read by everybody without the lock, and the count is changed by a load and a store; only the thread
itself ever writes its own number, so that it is not mistaken for somebody else.
-/

namespace LinuxZero.Locks

/-- Where a thread is inside the functions of the lock; `trying` is for `rte_spinlock_recursive_trylock`. -/
inductive RecursivePhase
  | idle
  /-- Before `slr->user != id` is computed. -/
  | test (trying : Bool)
  /-- Before `xchg`. -/
  | acquire (trying : Bool)
  /-- In the loop that waits until the lock is seen free. -/
  | spin
  | setUser
  /-- `slr->count++`. -/
  | loadUp
  | storeUp (loaded : ℤ)
  /-- `--(slr->count)`. -/
  | loadDown
  | storeDown (loaded : ℤ)
  | clearUser
  | release
deriving DecidableEq, Repr

/-- The lock and the threads; `depth` is how often a thread has taken the lock and not given it back. -/
structure RecursiveSpinlock where
  locked : ℤ
  user : ℤ
  count : ℤ
  thread : ℕ → RecursivePhase
  depth : ℕ → ℕ

inductive RecursiveEvent
  | lock (t : ℕ)
  | trylock (t : ℕ)
  | unlock (t : ℕ)
  | step (t : ℕ)
deriving DecidableEq, Repr

namespace RecursiveSpinlock

/-- `rte_spinlock_recursive_init`. -/
def initial : RecursiveSpinlock where
  locked := 0
  user := -1
  count := 0
  thread _ := .idle
  depth _ := 0

section Functions

variable (gettid : ℕ → ℤ) (s : RecursiveSpinlock)

def setThread (t : ℕ) (phase : RecursivePhase) : RecursiveSpinlock :=
  { s with thread := Function.update s.thread t phase }

def setDepth (t depth : ℕ) : RecursiveSpinlock := { s with depth := Function.update s.depth t depth }

/-- The next step of a thread. -/
def advance (t : ℕ) : RecursiveSpinlock :=
  match s.thread t with
  | .idle => s
  | .test trying => s.setThread t (if s.user ≠ gettid t then .acquire trying else .loadUp)
  | .acquire trying =>
    { s with locked := 1 }.setThread t (if s.locked = 0 then .setUser else if trying
      then .idle else .spin)
  | .spin => if s.locked = 0 then s.setThread t (.acquire false) else s
  | .setUser => { s with user := gettid t }.setThread t .loadUp
  | .loadUp => s.setThread t (.storeUp s.count)
  | .storeUp loaded =>
      ({ s with count := (loaded + 1).bmod (2 ^ 32) }.setDepth t (s.depth t + 1)).setThread t .idle
  | .loadDown => s.setThread t (.storeDown s.count)
  | .storeDown loaded =>
    ({ s with count := (loaded - 1).bmod (2 ^ 32) }.setDepth t (s.depth t - 1)).setThread t
      (if (loaded - 1).bmod (2 ^ 32) = 0 then .clearUser else .idle)
  | .clearUser => { s with user := -1 }.setThread t .release
  | .release => { s with locked := 0 }.setThread t .idle

def apply : RecursiveEvent → RecursiveSpinlock
  | .lock t => s.setThread t (.test false)
  | .trylock t => s.setThread t (.test true)
  | .unlock t => s.setThread t .loadDown
  | .step t => s.advance gettid t

/-- A lock is given back only by who has it, and the count does not overflow. -/
def Enabled : RecursiveEvent → Prop
  | .lock t | .trylock t => s.thread t = .idle ∧ s.depth t + 1 < 2 ^ 31
  | .unlock t => s.thread t = .idle ∧ 0 < s.depth t
  | .step _ => True

end Functions

def Step (gettid : ℕ → ℤ) (s : RecursiveSpinlock) (event : RecursiveEvent)
    (s' : RecursiveSpinlock) : Prop :=
  s.Enabled event ∧ s' = s.apply gettid event

/-- A thread without the lock. -/
def Away (s : RecursiveSpinlock) (t : ℕ) : Prop :=
  s.depth t = 0 ∧ match s.thread t with
    | .idle | .test _ | .acquire _ | .spin => True
    | _ => False

/-- What the thread with the lock finds in it. -/
def Owns (gettid : ℕ → ℤ) (s : RecursiveSpinlock) (t : ℕ) : Prop :=
  match s.thread t with
  | .idle => s.user = gettid t ∧ s.count = s.depth t ∧ 0 < s.depth t
  | .test _ => (s.user = gettid t ∧ s.count = s.depth t ∧ 0 < s.depth t) ∧ s.depth t + 1 < 2 ^ 31
  | .acquire _ | .spin => False
  | .setUser => s.user = -1 ∧ s.count = 0 ∧ s.depth t = 0
  | .loadUp => s.user = gettid t ∧ s.count = s.depth t ∧ s.depth t + 1 < 2 ^ 31
  | .storeUp loaded => s.user = gettid t ∧ s.count = s.depth t ∧ s.depth t + 1 < 2 ^ 31 ∧ loaded = s.count
  | .loadDown => s.user = gettid t ∧ s.count = s.depth t ∧ 0 < s.depth t
  | .storeDown loaded => s.user = gettid t ∧ s.count = s.depth t ∧ 0 < s.depth t ∧ loaded = s.count
  | .clearUser => s.user = gettid t ∧ s.count = 0 ∧ s.depth t = 0
  | .release => s.user = -1 ∧ s.count = 0 ∧ s.depth t = 0

/-- Nobody has the lock, or one thread has it. -/
def Owned (gettid : ℕ → ℤ) (s : RecursiveSpinlock) : Prop :=
  (s.locked = 0 ∧ s.user = -1 ∧ s.count = 0 ∧ ∀ t, s.Away t) ∨
    ∃ owner, s.locked = 1 ∧ s.Owns gettid owner ∧ s.depth owner < 2 ^ 31 ∧ ∀ t, t ≠ owner → s.Away t

variable {gettid : ℕ → ℤ} {s s' : RecursiveSpinlock} {t u : ℕ}

section Frames

theorem Away.frame (away : s.Away u) (thread : s'.thread u = s.thread u)
    (depth : s'.depth u = s.depth u) : s'.Away u := by
  unfold Away at *
  rwa [thread, depth]

theorem Owns.frame (owns : s.Owns gettid u) (thread : s'.thread u = s.thread u)
    (depth : s'.depth u = s.depth u) (user : s'.user = s.user) (count : s'.count = s.count) :
    s'.Owns gettid u := by
  unfold Owns at *
  rwa [thread, depth, user, count]

theorem Away.not_owns (away : s.Away t) : ¬ s.Owns gettid t := by
  intro owns
  unfold Owns at owns
  obtain ⟨none, outside⟩ := away
  cases thread : s.thread t with
  | idle => rw [thread] at owns; omega
  | test trying => rw [thread] at owns; omega
  | acquire | spin => rwa [thread] at owns
  | setUser | loadUp | storeUp | loadDown | storeDown | clearUser | release => rwa [thread] at outside

/-- Where the others are after a step of thread `t`. -/
structure Others (t : ℕ) (s s' : RecursiveSpinlock) : Prop where
  thread : ∀ u, u ≠ t → s'.thread u = s.thread u
  depth : ∀ u, u ≠ t → s'.depth u = s.depth u

theorem Others.away (others : Others t s s') (away : ∀ u, u ≠ t → s.Away u) : ∀ u, u ≠ t → s'.Away u :=
  fun u differ => (away u differ).frame (others.thread u differ) (others.depth u differ)

theorem others_setThread (phase : RecursivePhase) : Others t s (s.setThread t phase) where
  thread _ differ := Function.update_of_ne differ ..
  depth _ _ := rfl

/-- A thread without the lock wanders, and the lock stays as it is. -/
theorem Owned.wander (owned : s.Owned gettid) (away : s.Away t) (others : Others t s s')
    (away' : s'.Away t) (locked : s'.locked = s.locked) (user : s'.user = s.user)
    (count : s'.count = s.count) : s'.Owned gettid := by
  rcases owned with ⟨isFree, nobody, none, all⟩ | ⟨owner, held, owns, bound, rest⟩
  · refine Or.inl ⟨locked.trans isFree, user.trans nobody, count.trans none, fun u => ?_⟩
    by_cases same : u = t
    · exact same ▸ away'
    · exact others.away (fun u _ => all u) u same
  · have differ : owner ≠ t := by
      rintro rfl
      exact away.not_owns owns
    have depth := others.depth owner differ
    refine Or.inr ⟨owner, locked.trans held,
      owns.frame (others.thread owner differ) depth user count, depth ▸ bound, fun u other => ?_⟩
    by_cases same : u = t
    · exact same ▸ away'
    · exact (rest u other).frame (others.thread u same) (others.depth u same)

/-- A thread is without the lock, or it has it. -/
theorem Owned.away_or_owns (owned : s.Owned gettid) (t : ℕ) :
    s.Away t ∨ s.locked = 1 ∧ s.Owns gettid t ∧ s.depth t < 2 ^ 31 ∧ ∀ u, u ≠ t → s.Away u := by
  rcases owned with ⟨_, _, _, all⟩ | ⟨owner, held, owns, bound, rest⟩
  · exact Or.inl (all t)
  · by_cases same : t = owner
    · exact Or.inr (same ▸ ⟨held, owns, bound, rest⟩)
    · exact Or.inl (rest t same)

theorem Owned.of_owns (held : s'.locked = 1) (owns : s'.Owns gettid t) (bound : s'.depth t < 2 ^ 31)
    (others : Others t s s') (rest : ∀ u, u ≠ t → s.Away u) : s'.Owned gettid :=
  Or.inr ⟨t, held, owns, bound, others.away rest⟩

end Frames

section Steps

/-- The number in the lock is none of a thread without the lock. -/
theorem Owned.user_ne (owned : s.Owned gettid) (distinct : Function.Injective gettid)
    (valid : ∀ t, gettid t ≠ -1) (away : s.Away t) :
    s.user ≠ gettid t := by
  rcases owned with ⟨_, nobody, _⟩ | ⟨owner, _, owns, _⟩
  · rw [nobody]
    exact (valid t).symm
  · have differ : owner ≠ t := by
      rintro rfl
      exact away.not_owns owns
    have user : s.user = gettid owner ∨ s.user = -1 := by
      unfold Owns at owns
      cases thread : s.thread owner with
      | test => rw [thread] at owns; exact Or.inl owns.1.1
      | acquire | spin => rw [thread] at owns; exact owns.elim
      | setUser | release => rw [thread] at owns; exact Or.inr owns.1
      | idle | loadUp | storeUp | loadDown | storeDown | clearUser =>
          rw [thread] at owns; exact Or.inl owns.1
    rcases user with same | none
    · rw [same]
      exact distinct.ne differ
    · rw [none]
      exact (valid t).symm

/-- `xchg`: the thread that finds the lock free has it. -/
theorem Owned.acquire (owned : s.Owned gettid) {trying : Bool} (thread : s.thread t = .acquire trying) :
    (s.advance gettid t).Owned gettid := by
  have away : s.Away t := by
    rcases owned.away_or_owns t with away | ⟨_, owns, _⟩
    · exact away
    · rw [Owns, thread] at owns
      exact owns.elim
  simp only [advance, thread]
  rcases owned with ⟨isFree, nobody, none, all⟩ | ⟨owner, held, owns, bound, rest⟩
  · rw [if_pos isFree]
    refine Owned.of_owns (s := s) (t := t) rfl ?_ ?_
      ⟨fun u differ => Function.update_of_ne differ .., fun _ _ => rfl⟩ fun u _ => all u
    · simp only [Owns, setThread, Function.update_self]
      exact ⟨nobody, none, away.1⟩
    · change s.depth t < 2 ^ 31
      rw [away.1]
      decide
  · have taken : s.locked ≠ 0 := by
      rw [held]
      decide
    rw [if_neg taken]
    refine Owned.wander (Or.inr ⟨owner, held, owns, bound, rest⟩) away
      ⟨fun u differ => Function.update_of_ne differ .., fun _ _ => rfl⟩ ?_
      held.symm rfl rfl
    refine ⟨away.1, ?_⟩
    simp only [setThread, Function.update_self]
    cases trying <;> trivial

theorem bmod_small {x : ℤ} (lower : 0 ≤ x) (upper : x < 2 ^ 31) : x.bmod (2 ^ 32) = x :=
  Int.bmod_eq_of_le (by omega) (by omega)

/-- A step of the thread that has the lock. -/
theorem Owned.advance_owner (owned : s.Owned gettid) (outside : ¬ s.Away t) :
    (s.advance gettid t).Owned gettid := by
  obtain ⟨held, owns, bound, rest⟩ := (owned.away_or_owns t).resolve_left outside
  have frame := fun phase => others_setThread (s := s) (t := t) phase
  unfold Owns at owns
  cases thread : s.thread t with
  | idle =>
    simp only [advance, thread]
    exact owned
  | test trying =>
    rw [thread] at owns
    obtain ⟨⟨user, count, positive⟩, room⟩ := owns
    simp only [advance, thread]
    rw [if_neg (not_not_intro user)]
    refine Owned.of_owns held ?_ bound (frame _) rest
    simp only [Owns, setThread, Function.update_self]
    exact ⟨user, count, room⟩
  | acquire | spin =>
    rw [thread] at owns
    exact owns.elim
  | setUser =>
    rw [thread] at owns
    obtain ⟨_, none, zero⟩ := owns
    simp only [advance, thread]
    refine Owned.of_owns held ?_ bound ⟨fun u differ => Function.update_of_ne differ ..,
      fun _ _ => rfl⟩ rest
    simp only [Owns, setThread, Function.update_self]
    rw [none, zero]
    exact ⟨trivial, rfl, by decide⟩
  | loadUp =>
    rw [thread] at owns
    simp only [advance, thread]
    refine Owned.of_owns held ?_ bound (frame _) rest
    simp only [Owns, setThread, Function.update_self]
    exact ⟨owns.1, owns.2.1, owns.2.2, trivial⟩
  | storeUp loaded =>
    rw [thread] at owns
    obtain ⟨user, count, room, rfl⟩ := owns
    simp only [advance, thread]
    refine Owned.of_owns (s := s) held ?_ ?_ ⟨fun u differ => Function.update_of_ne differ ..,
      fun u differ => Function.update_of_ne differ ..⟩ rest
    · simp only [Owns, setThread, setDepth, Function.update_self]
      rw [bmod_small (by omega) (by omega), count]
      exact ⟨user, rfl, Nat.succ_pos _⟩
    · simp only [setThread, setDepth, Function.update_self]
      exact room
  | loadDown =>
    rw [thread] at owns
    simp only [advance, thread]
    refine Owned.of_owns held ?_ bound (frame _) rest
    simp only [Owns, setThread, Function.update_self]
    exact ⟨owns.1, owns.2.1, owns.2.2, trivial⟩
  | storeDown loaded =>
    rw [thread] at owns
    obtain ⟨user, count, positive, rfl⟩ := owns
    simp only [advance, thread]
    refine Owned.of_owns (s := s) held ?_ ?_ ⟨fun u differ => Function.update_of_ne differ ..,
      fun u differ => Function.update_of_ne differ ..⟩ rest
    · rw [bmod_small (by omega) (by omega)]
      simp only [Owns, setThread, setDepth, Function.update_self]
      split_ifs with last
      · exact ⟨user, last, by omega⟩
      · exact ⟨user, by omega, by omega⟩
    · simp only [setThread, setDepth, Function.update_self]
      omega
  | clearUser =>
    rw [thread] at owns
    simp only [advance, thread]
    refine Owned.of_owns held ?_ bound ⟨fun u differ => Function.update_of_ne differ ..,
      fun _ _ => rfl⟩ rest
    simp only [Owns, setThread, Function.update_self]
    exact ⟨trivial, owns.2.1, owns.2.2⟩
  | release =>
    rw [thread] at owns
    obtain ⟨nobody, none, zero⟩ := owns
    simp only [advance, thread]
    have others : Others t s ({ s with locked := 0 }.setThread t .idle) :=
      ⟨fun u differ => Function.update_of_ne differ .., fun _ _ => rfl⟩
    refine Or.inl ⟨rfl, nobody, none, fun u => ?_⟩
    by_cases same : u = t
    · subst same
      refine ⟨zero, ?_⟩
      simp only [setThread, Function.update_self]
    · exact others.away rest u same

theorem Owned.advance_away (owned : s.Owned gettid) (distinct : Function.Injective gettid)
    (valid : ∀ t, gettid t ≠ -1) (away : s.Away t) : (s.advance gettid t).Owned gettid := by
  cases thread : s.thread t with
  | idle =>
    simp only [advance, thread]
    exact owned
  | test trying =>
    simp only [advance, thread]
    rw [if_pos (owned.user_ne distinct valid away)]
    refine owned.wander away (others_setThread _) ⟨away.1, ?_⟩ rfl rfl rfl
    simp only [setThread, Function.update_self]
  | acquire trying => exact owned.acquire thread
  | spin =>
    simp only [advance, thread]
    split_ifs
    · refine owned.wander away (others_setThread _) ⟨away.1, ?_⟩ rfl rfl rfl
      simp only [setThread, Function.update_self]
    · exact owned
  | setUser | loadUp | storeUp | loadDown | storeDown | clearUser | release =>
    have outside := away.2
    rw [thread] at outside
    exact outside.elim

theorem Owned.step {event : RecursiveEvent} (owned : s.Owned gettid)
    (distinct : Function.Injective gettid) (valid : ∀ t, gettid t ≠ -1)
    (step : Step gettid s event s') : s'.Owned gettid := by
  obtain ⟨enabled, rfl⟩ := step
  cases event with
  | lock t | trylock t =>
    obtain ⟨thread, room⟩ := enabled
    rcases owned.away_or_owns t with away | ⟨held, owns, bound, rest⟩
    · refine owned.wander away (others_setThread _) ⟨away.1, ?_⟩ rfl rfl rfl
      simp only [apply, setThread, Function.update_self]
    · rw [Owns, thread] at owns
      refine Owned.of_owns (t := t) held ?_ bound (others_setThread _) rest
      simp only [apply, Owns, setThread, Function.update_self]
      exact ⟨owns, room⟩
  | unlock t =>
    obtain ⟨thread, positive⟩ := enabled
    obtain ⟨held, owns, bound, rest⟩ := (owned.away_or_owns t).resolve_left fun away =>
      positive.ne' away.1
    rw [Owns, thread] at owns
    refine Owned.of_owns (t := t) held ?_ bound (others_setThread _) rest
    simp only [apply, Owns, setThread, Function.update_self]
    exact owns
  | step t =>
    by_cases away : s.Away t
    · exact owned.advance_away distinct valid away
    · exact owned.advance_owner away

end Steps

section Results

theorem owned_initial (gettid : ℕ → ℤ) : initial.Owned gettid :=
  Or.inl ⟨rfl, rfl, rfl, fun _ => ⟨rfl, trivial⟩⟩

/-- One thread at most has the lock, however often; it never waits for the lock when it takes it again, the count says
how often it has it, and after as many `unlock`s the lock is as it was at the start. -/
theorem recursive_spinlock_excludes (distinct : Function.Injective gettid)
    (valid : ∀ t, gettid t ≠ -1) {events : List RecursiveEvent}
    (run : Run (Step gettid) initial events s) :
    (∀ t u, 0 < s.depth t → 0 < s.depth u → t = u) ∧
      (∀ t, 0 < s.depth t → s.locked = 1 ∧ s.user = gettid t ∧ s.thread t ≠ .spin ∧
      ∀ trying, s.thread t ≠ .acquire trying) ∧
      (∀ t, 0 < s.depth t → s.thread t = .idle → s.count = s.depth t) ∧
      ((∀ t, s.depth t = 0 ∧ s.thread t = .idle) → s.locked = 0 ∧ s.user = -1 ∧ s.count = 0) := by
  have owned := run.invariant (Owned gettid)
    (fun _ _ _ owned step => owned.step distinct valid step) (owned_initial gettid)
  have owner : ∀ t, 0 < s.depth t → s.locked = 1 ∧ s.Owns gettid t ∧ s.depth t < 2 ^ 31 ∧
    ∀ u, u ≠ t → s.Away u :=
    fun t positive => (owned.away_or_owns t).resolve_left fun away => positive.ne' away.1
  refine ⟨fun t u first second => ?_, fun t positive => ?_, fun t positive idle => ?_, fun all => ?_⟩
  · by_contra differ
    exact first.ne' ((owner u second).2.2.2 t differ).1
  · obtain ⟨held, owns, _⟩ := owner t positive
    unfold Owns at owns
    cases thread : s.thread t with
    | acquire | spin => rw [thread] at owns; exact owns.elim
    | setUser | clearUser | release => rw [thread] at owns; omega
    | test => rw [thread] at owns; exact ⟨held, owns.1.1, by rintro ⟨⟩, fun _ => by rintro ⟨⟩⟩
    | idle | loadUp | storeUp | loadDown | storeDown => rw [thread] at owns; exact ⟨held, owns.1,
        by rintro ⟨⟩, fun _ => by rintro ⟨⟩⟩
  · have owns := (owner t positive).2.1
    rw [Owns, idle] at owns
    exact owns.2.1
  · rcases owned with ⟨isFree, nobody, none, _⟩ | ⟨owner, _, owns, _⟩
    · exact ⟨isFree, nobody, none⟩
    · rw [Owns, (all owner).2] at owns
      exact absurd (all owner).1 owns.2.2.ne'

/-- Thread 0 takes the lock twice; the try of thread 1 in between fails. -/
def takenTwice : List RecursiveEvent :=
  [.lock 0, .step 0, .step 0, .step 0, .step 0, .step 0, .trylock 1, .step 1, .lock 0, .step 0,
    .step 1, .step 0, .step 0, .unlock 0, .step 0, .step 0]

theorem takenTwice_excludes : ∃ s, Run (Step (fun t => (t : ℤ))) initial takenTwice s ∧
    s.depth 0 = 1 ∧ s.depth 1 = 0 ∧
    s.count = s.depth 0 := by
  have replays : Run.Replays Enabled (apply (fun t => (t : ℤ))) initial takenTwice := by
    refine ⟨⟨rfl, by decide⟩, trivial, trivial, trivial, trivial, trivial, ⟨rfl, by decide⟩,
      trivial, ⟨rfl, by decide⟩, trivial,
      trivial, trivial, trivial, ⟨rfl, by decide⟩, trivial, trivial, trivial⟩
  have run := Run.of_replays takenTwice _ replays
  have distinct : Function.Injective fun t : ℕ => (t : ℤ) := fun _ _ same => Int.ofNat.inj same
  have excludes := recursive_spinlock_excludes distinct (by omega) run
  exact ⟨_, run, by decide, by decide, excludes.2.2.1 0 (by decide) rfl⟩

end Results

end RecursiveSpinlock

end LinuxZero.Locks
