import Mathlib.Data.Int.Basic
import LinuxZero.Lib.ReadersWriter
import LinuxZero.Fbarray.FbarrayRuns

/-! # One array, many threads

Requests take `rte_rwlock` around their accesses to the mask and the count: the queries share it, and a change has it for
itself. The mask and the count are written in two steps, between which nobody looks. In the order in which they
return the requests are answered as if they were made one after the other.
-/

namespace LinuxZero.Fbarray

/-- The check that is made before the lock is taken. -/
def FbarrayRequest.refused (len : ℕ) : FbarrayRequest → Bool
  | .set_used idx | .set_free idx | .is_used idx => idx ≥ len
  | .find_next_free start | .find_next_used start | .find_contig_free start | .find_contig_used
      start => start ≥ len
  | .find_next_n_free start n | .find_next_n_used start n => start ≥ len ∨ n > len

/-- What `set_used` is called with. -/
def FbarrayRequest.update : FbarrayRequest → Option (ℕ × Bool)
  | .set_used idx => some (idx, true)
  | .set_free idx => some (idx, false)
  | _ => none

def setRequest (idx : ℕ) (used : Bool) : FbarrayRequest := if used then .set_used idx else .set_free idx

/-- Where a thread is inside a request. -/
inductive FbarrayPhase
  | idle
  /-- Before the arguments are checked. -/
  | check (req : FbarrayRequest)
  /-- In `rte_rwlock_read_lock`, before the count of the lock is read. -/
  | readLock (req : FbarrayRequest)
  /-- In `rte_rwlock_read_lock`, before `rte_atomic32_cmpset`. -/
  | readExchange (req : FbarrayRequest) (x : ℤ)
  | reading (req : FbarrayRequest)
  | readUnlock (req : FbarrayRequest) (answer : Except ℤ ℕ)
  | writeLock (idx : ℕ) (used : Bool)
  | writeExchange (idx : ℕ) (used : Bool)
  /-- In `set_used`, before `already_used` is computed. -/
  | testing (idx : ℕ) (used : Bool)
  /-- Before the mask is written. -/
  | marking (idx : ℕ) (used : Bool)
  /-- The mask is written and the count is not. -/
  | counting (idx : ℕ) (used : Bool)
  | writeUnlock (idx : ℕ) (used : Bool)

def FbarrayPhase.holding : FbarrayPhase → Holding
  | .reading _ | .readUnlock _ _ => .reading
  | .testing _ _ | .marking _ _ | .counting _ _ | .writeUnlock _ _ => .writing
  | _ => .nothing

/-- The array, the count of its lock, the threads, and the requests that have returned in this order. -/
structure ConcurrentFbarray where
  arr : RteFbarray
  cnt : ℤ
  thread : ℕ → FbarrayPhase
  returned : List (FbarrayRequest × Except ℤ ℕ) := []

inductive FbarrayEvent
  | call (t : ℕ) (req : FbarrayRequest)
  | step (t : ℕ)
deriving DecidableEq, Repr

namespace RteFbarray

variable (arr : RteFbarray)

/-- The mask is written. -/
def mark (idx : ℕ) (used : Bool) : RteFbarray :=
  let msk_bit := 1#64 <<< MASK_LEN_TO_MOD idx
  let msk_idx := MASK_LEN_TO_IDX idx
  arr.setWord msk_idx (if used then arr.msk.data msk_idx ||| msk_bit else arr.msk.data msk_idx &&&
  ~~~msk_bit) arr.count

/-- `arr->count++` or `arr->count--`. -/
def recount (used : Bool) : RteFbarray :=
  { arr with count := if used then (arr.count + 1) % 2 ^ 32 else sub32 arr.count 1 }

end RteFbarray

namespace ConcurrentFbarray

def initial (arr : RteFbarray) : ConcurrentFbarray where
  arr := arr
  cnt := 0
  thread _ := .idle

section Functions

variable (s : ConcurrentFbarray)

def setThread (t : ℕ) (phase : FbarrayPhase) : ConcurrentFbarray :=
  { s with thread := Function.update s.thread t phase }

def finish (t : ℕ) (req : FbarrayRequest) (answer : Except ℤ ℕ) : ConcurrentFbarray :=
  { s.setThread t .idle with returned := s.returned ++ [(req, answer)] }

/-- The next step of a thread; one that waits for the lock stays where it is. -/
def advance (wraps : Bool) (t : ℕ) : ConcurrentFbarray :=
  match s.thread t with
  | .idle => s
  | .check req =>
    if req.refused s.arr.len then s.finish t req (.error EINVAL)
    else
      match req.update with
      | some (idx, used) => s.setThread t (.writeLock idx used)
      | none => s.setThread t (.readLock req)
  | .readLock req => if s.cnt < 0 then s else s.setThread t (.readExchange req s.cnt)
  | .readExchange req x =>
    if s.cnt = x then { s with cnt := (x + 1).bmod (2 ^ 32) }.setThread t (.reading req)
      else s.setThread t (.readLock req)
  | .reading req => s.setThread t (.readUnlock req (s.arr.call wraps req).2)
  | .readUnlock req answer => { s with cnt := (s.cnt - 1).bmod (2 ^ 32) }.finish t req answer
  | .writeLock idx used => if s.cnt ≠ 0 then s else s.setThread t (.writeExchange idx used)
  | .writeExchange idx used =>
    if s.cnt = 0 then { s with cnt := -1 }.setThread t (.testing idx used) else s.setThread t
      (.writeLock idx used)
  | .testing idx used => s.setThread t (if used = s.arr.isBitSet idx then .writeUnlock idx used
      else .marking idx used)
  | .marking idx used => { s with arr := s.arr.mark idx used }.setThread t (.counting idx used)
  | .counting idx used => { s with arr := s.arr.recount used }.setThread t (.writeUnlock idx used)
  | .writeUnlock idx used => { s with cnt := (s.cnt + 1).bmod (2 ^ 32) }.finish t
      (setRequest idx used) (.ok 0)

def apply (wraps : Bool) : FbarrayEvent → ConcurrentFbarray
  | .call t req => s.setThread t (.check req)
  | .step t => s.advance wraps t

def Enabled (n : ℕ) : FbarrayEvent → Prop
  | .call t _ => t < n ∧ s.thread t = .idle
  | .step t => t < n

end Functions

def Step (n : ℕ) (wraps : Bool) (s : ConcurrentFbarray) (event : FbarrayEvent)
    (s' : ConcurrentFbarray) : Prop :=
  s.Enabled n event ∧ s' = s.apply wraps event

end ConcurrentFbarray

/-- What a thread knows about the array, and about the array `whole` that the returned requests have left. -/
def FbarrayPhase.Shows (wraps : Bool) (arr whole : RteFbarray) : FbarrayPhase → Prop
  | .idle | .check _ => True
  | .readLock req => req.update = none
  | .readExchange req x => req.update = none ∧ 0 ≤ x
  | .reading req => req.update = none ∧ arr = whole
  | .readUnlock req answer => whole.call wraps req = (whole, answer) ∧ arr = whole
  | .writeLock idx _ | .writeExchange idx _ => idx < arr.len
  | .testing idx _ => idx < arr.len ∧ arr = whole
  | .marking idx used => idx < arr.len ∧ arr = whole ∧ used ≠ whole.isBitSet idx
  | .counting idx used => idx < arr.len ∧ arr = whole.mark idx used ∧ used ≠ whole.isBitSet idx
  | .writeUnlock idx used => whole.set_used idx used = (arr, .ok 0)

section Requests

variable {arr : RteFbarray} {req : FbarrayRequest} {idx : ℕ} {used wraps : Bool}

theorem call_setRequest : arr.call wraps (setRequest idx used) = arr.set_used idx used := by
  cases used <;> rfl

theorem call_of_query (query : req.update = none) : (arr.call wraps req).1 = arr := by
  cases req <;> first | rfl | contradiction

theorem call_refused (refused : req.refused arr.len = true) : arr.call wraps req =
    (arr, .error EINVAL) := by
  cases req with
  | set_used idx | set_free idx =>
    have outside : idx ≥ arr.len := of_decide_eq_true refused
    simp only [RteFbarray.call, RteFbarray.rte_fbarray_set_used, RteFbarray.rte_fbarray_set_free,
      RteFbarray.set_used, if_pos outside]
  | is_used start =>
    have outside : start ≥ arr.len := of_decide_eq_true refused
    simp only [RteFbarray.call, RteFbarray.rte_fbarray_is_used, if_pos outside]
  | find_next_free start =>
    have outside : start ≥ arr.len := of_decide_eq_true refused
    simp only [RteFbarray.call, RteFbarray.rte_fbarray_find_next_free, if_pos outside]
  | find_next_used start =>
    have outside : start ≥ arr.len := of_decide_eq_true refused
    simp only [RteFbarray.call, RteFbarray.rte_fbarray_find_next_used, if_pos outside]
  | find_contig_free start =>
    have outside : start ≥ arr.len := of_decide_eq_true refused
    simp only [RteFbarray.call, RteFbarray.rte_fbarray_find_contig_free, if_pos outside]
  | find_contig_used start =>
    have outside : start ≥ arr.len := of_decide_eq_true refused
    simp only [RteFbarray.call, RteFbarray.rte_fbarray_find_contig_used, if_pos outside]
  | find_next_n_free start n =>
    have outside : start ≥ arr.len ∨ n > arr.len := of_decide_eq_true refused
    simp only [RteFbarray.call, RteFbarray.rte_fbarray_find_next_n_free, if_pos outside]
  | find_next_n_used start n =>
    have outside : start ≥ arr.len ∨ n > arr.len := of_decide_eq_true refused
    simp only [RteFbarray.call, RteFbarray.rte_fbarray_find_next_n_used, if_pos outside]

theorem update_inside (accepted : ¬ req.refused arr.len = true)
    (update : req.update = some (idx, used)) : idx < arr.len := by
  cases req with
  | set_used idx' | set_free idx' =>
    obtain ⟨rfl, rfl⟩ := Prod.mk.inj (Option.some.inj update)
    exact Nat.not_le.mp fun outside => accepted (decide_eq_true outside)
  | is_used | find_next_free | find_next_used | find_next_n_free | find_next_n_used | find_contig_free
  | find_contig_used => contradiction

/-- The two writes are what `set_used` does to an element that changes. -/
theorem recount_mark (inside : idx < arr.len) (changes : used ≠ arr.isBitSet idx) :
    arr.set_used idx used = ((arr.mark idx used).recount used, .ok 0) := by
  simp only [RteFbarray.set_used]
  rw [if_neg (Nat.not_le.mpr inside), if_neg changes]
  cases used <;> rfl

theorem set_used_unchanged (inside : idx < arr.len) (same : used = arr.isBitSet idx) :
    arr.set_used idx used = (arr, .ok 0) := by
  simp only [RteFbarray.set_used]
  rw [if_neg (Nat.not_le.mpr inside), if_pos same]

end Requests

namespace ConcurrentFbarray

variable {s s' : ConcurrentFbarray} {arr₀ whole whole' : RteFbarray} {n t idx : ℕ}
  {used wraps : Bool} {req : FbarrayRequest}
  {answer : Except ℤ ℕ} {phase : FbarrayPhase} {x : ℤ}

/-- The returned requests, made one after the other, have left `whole`, and the array differs from it only while a
thread writes. -/
structure Linear (n : ℕ) (wraps : Bool) (arr₀ : RteFbarray) (s : ConcurrentFbarray)
    (whole : RteFbarray) : Prop where
  held : HeldBy n (fun t => (s.thread t).holding) s.cnt
  run : Run (RteFbarray.Step wraps) arr₀ s.returned whole
  len : whole.len = s.arr.len
  shows : ∀ t < n, (s.thread t).Shows wraps s.arr whole
  settled : (∀ t < n, (s.thread t).holding ≠ .writing) → s.arr = whole

section Moves

theorem thread_setThread_self : (s.setThread t phase).thread t = phase := Function.update_self ..

theorem thread_setThread_of_ne {u : ℕ} (differ : u ≠ t) : (s.setThread t phase).thread u = s.thread u :=
  Function.update_of_ne differ ..

theorem holding_setThread : (fun u => ((s.setThread t phase).thread u).holding) =
    Function.update (fun u => (s.thread u).holding) t phase.holding := by
  funext u
  by_cases same : u = t
  · rw [same, thread_setThread_self, Function.update_self]
  · rw [thread_setThread_of_ne same, Function.update_of_ne same]

/-- A thread that holds nothing knows nothing that others can change. -/
theorem Shows.env {arr arr' : RteFbarray} (shows : phase.Shows wraps arr whole)
    (nothing : phase.holding = .nothing) (len : arr'.len = arr.len) :
    phase.Shows wraps arr' whole' := by
  cases phase with
  | idle | check | readLock | readExchange => exact shows
  | writeLock | writeExchange => exact lt_of_lt_of_eq shows len.symm
  | reading | readUnlock | testing | marking | counting | writeUnlock => contradiction

/-- A thread moves while the lock stays as it is. -/
theorem Linear.wander (linear : Linear n wraps arr₀ s whole) (bound : t < n)
    (same : phase.holding = (s.thread t).holding) (own : phase.Shows wraps s.arr whole) :
    Linear n wraps arr₀ (s.setThread t phase) whole where
  held := by
    refine linear.held.congr fun u => ?_
    by_cases isT : u = t
    · rw [isT, thread_setThread_self, same]
    · rw [thread_setThread_of_ne isT]
  run := linear.run
  len := linear.len
  shows u below := by
    by_cases isT : u = t
    · rw [isT, thread_setThread_self]
      exact own
    · rw [thread_setThread_of_ne isT]
      exact linear.shows u below
  settled nobody := by
    refine linear.settled fun u below => ?_
    by_cases isT : u = t
    · have moved := nobody t bound
      rwa [thread_setThread_self, same, ← isT] at moved
    · rw [← thread_setThread_of_ne isT]
      exact nobody u below

/-- The lock is taken or given back, and the array stays as it is. -/
theorem Linear.relock (linear : Linear n wraps arr₀ s whole) {cnt : ℤ}
    (held : HeldBy n (Function.update (fun u => (s.thread u).holding) t phase.holding) cnt)
    (settled : s.arr = whole) (own : phase.Shows wraps s.arr whole) :
    Linear n wraps arr₀ ({ s with cnt }.setThread t phase) whole where
  held := by
    rw [holding_setThread]
    exact held
  run := linear.run
  len := linear.len
  shows u below := by
    by_cases isT : u = t
    · rw [isT, thread_setThread_self]
      exact own
    · rw [thread_setThread_of_ne isT]
      exact linear.shows u below
  settled _ := settled

/-- The one writer writes to the array, or what it has done becomes the next request. -/
theorem Linear.written (linear : Linear n wraps arr₀ s whole) (phase : FbarrayPhase) (bound : t < n)
    (writes : (s.thread t).holding = .writing) {arr : RteFbarray} {cnt : ℤ}
    {returned : List (FbarrayRequest × Except ℤ ℕ)}
    (held : HeldBy n (Function.update (fun u => (s.thread u).holding) t phase.holding) cnt)
    (run : Run (RteFbarray.Step wraps) arr₀ returned whole') (len : arr.len = s.arr.len)
    (len' : whole'.len = arr.len) (own : phase.Shows wraps arr whole')
    (settled : phase.holding ≠ .writing → arr = whole') :
    Linear n wraps arr₀ { { s with arr, cnt }.setThread t phase with returned } whole' where
  held := by
    change HeldBy n (fun u => (({ s with arr, cnt }.setThread t phase).thread u).holding) cnt
    rw [holding_setThread]
    exact held
  run := run
  len := len'
  shows u below := by
    change (({ s with arr, cnt }.setThread t phase).thread u).Shows wraps arr whole'
    by_cases isT : u = t
    · rw [isT, thread_setThread_self]
      exact own
    · rw [thread_setThread_of_ne isT]
      exact Shows.env (linear.shows u below) (linear.held.alone bound writes below isT) len
  settled nobody := by
    refine settled fun writing => nobody t bound ?_
    change ((({ s with arr, cnt }.setThread t phase).thread t).holding) = .writing
    rw [thread_setThread_self]
    exact writing

/-- A request that leaves the array as it is returns. -/
theorem Linear.finish (linear : Linear n wraps arr₀ s whole)
    (answers : whole.call wraps req = (whole, answer)) {cnt : ℤ}
    (held : HeldBy n (Function.update (fun u => (s.thread u).holding) t .nothing) cnt)
    (kept : (s.thread t).holding ≠ .writing) :
    Linear n wraps arr₀ ({ s with cnt }.finish t req answer) whole where
  held := by
    change HeldBy n (fun u => (({ s with cnt }.setThread t .idle).thread u).holding) cnt
    rw [holding_setThread]
    exact held
  run := .next linear.run answers
  len := linear.len
  shows u below := by
    change (({ s with cnt }.setThread t .idle).thread u).Shows wraps s.arr whole
    by_cases isT : u = t
    · rw [isT, thread_setThread_self]
      trivial
    · rw [thread_setThread_of_ne isT]
      exact linear.shows u below
  settled nobody := by
    refine linear.settled fun u below => ?_
    by_cases isT : u = t
    · exact isT ▸ kept
    · have idle := nobody u below
      change ((({ s with cnt }.setThread t .idle).thread u).holding) ≠ .writing at idle
      rwa [thread_setThread_of_ne isT] at idle

end Moves

section Steps

/-- The count of the lock fits in 32 bits. -/
theorem bmod_cnt (few : n < 2 ^ 31) (lower : -1 ≤ x) (upper : x ≤ n) : x.bmod (2 ^ 32) = x :=
  Int.bmod_eq_of_le (by omega) (by omega)

/-- With a count that is not negative nobody writes. -/
theorem Linear.settled_of_nonneg (linear : Linear n wraps arr₀ s whole) (shared : 0 ≤ s.cnt) :
    s.arr = whole := by
  refine linear.settled fun u below => ?_
  rcases linear.held with ⟨nobody, _⟩ | ⟨_, _, negative⟩
  · exact ne_of_countAt_zero nobody below
  · omega

theorem Linear.check (linear : Linear n wraps arr₀ s whole) (bound : t < n)
    (thread : s.thread t = .check req) :
    Linear n wraps arr₀ (s.advance wraps t) whole := by
  have nothing : (s.thread t).holding = .nothing := by rw [thread]; rfl
  simp only [advance, thread]
  split_ifs with refused
  · have held : HeldBy n (Function.update (fun u => (s.thread u).holding) t .nothing) s.cnt := by
      rw [← nothing, Function.update_eq_self]
      exact linear.held
    refine linear.finish (call_refused ?_) held ?_
    · rw [linear.len, refused]
    · rw [nothing]
      decide
  · cases update : req.update with
    | none => exact linear.wander bound nothing.symm update
    | some pair =>
      obtain ⟨idx, used⟩ := pair
      exact linear.wander bound nothing.symm (update_inside refused update)

theorem Linear.read (linear : Linear n wraps arr₀ s whole) (few : n < 2 ^ 31) (bound : t < n)
    (thread : s.thread t = .readExchange req x) (latest : s.cnt = x) :
    Linear n wraps arr₀ ({ s with cnt := (x + 1).bmod (2 ^ 32) }.setThread t (.reading req)) whole := by
  have nothing : (s.thread t).holding = .nothing := by rw [thread]; rfl
  obtain ⟨query, shared⟩ : req.update = none ∧ 0 ≤ x := by
    have shows := linear.shows t bound
    rwa [thread] at shows
  have held := linear.held.read bound nothing (latest ▸ shared)
  have settled := linear.settled_of_nonneg (latest ▸ shared)
  have bounds := held.bounds
  rw [← latest, bmod_cnt few (by omega) bounds.2]
  exact linear.relock held settled ⟨query, settled⟩

theorem Linear.write (linear : Linear n wraps arr₀ s whole) (bound : t < n)
    (thread : s.thread t = .writeExchange idx used) (isFree : s.cnt = 0) :
    Linear n wraps arr₀ ({ s with cnt := -1 }.setThread t (.testing idx used)) whole := by
  have nothing : (s.thread t).holding = .nothing := by rw [thread]; rfl
  have inside : idx < s.arr.len := by
    have shows := linear.shows t bound
    rwa [thread] at shows
  have settled := linear.settled_of_nonneg isFree.ge
  exact linear.relock (linear.held.write bound nothing isFree) settled ⟨inside, settled⟩

theorem Linear.readUnlock (linear : Linear n wraps arr₀ s whole) (few : n < 2 ^ 31) (bound : t < n)
    (thread : s.thread t = .readUnlock req answer) :
    Linear n wraps arr₀ ({ s with cnt := (s.cnt - 1).bmod (2 ^ 32) }.finish t req answer) whole := by
  have reads : (s.thread t).holding = .reading := by rw [thread]; rfl
  have answers : whole.call wraps req = (whole, answer) := by
    have shows := linear.shows t bound
    rw [thread] at shows
    exact shows.1
  have held := linear.held.stop_reading bound reads
  rw [bmod_cnt few held.bounds.1 held.bounds.2]
  exact linear.finish answers held (by rw [reads]; decide)

theorem Linear.marking (linear : Linear n wraps arr₀ s whole) (bound : t < n)
    (thread : s.thread t = .marking idx used) :
    Linear n wraps arr₀ ({ s with arr := s.arr.mark idx used }.setThread t (.counting idx used))
    whole := by
  have writes : (s.thread t).holding = .writing := by rw [thread]; rfl
  obtain ⟨inside, settled, changes⟩ : idx < s.arr.len ∧ s.arr = whole ∧ used ≠ whole.isBitSet idx := by
    have shows := linear.shows t bound
    rwa [thread] at shows
  have held : HeldBy n (Function.update (fun u => (s.thread u).holding) t .writing) s.cnt := by
    rw [← writes, Function.update_eq_self]
    exact linear.held
  have marked : s.arr.mark idx used = whole.mark idx used := congrArg (·.mark idx used) settled
  exact linear.written (.counting idx used) bound writes held linear.run rfl linear.len
    ⟨inside, marked, changes⟩
    fun other => absurd rfl other

theorem Linear.counting (linear : Linear n wraps arr₀ s whole) (bound : t < n)
    (thread : s.thread t = .counting idx used) :
    Linear n wraps arr₀ ({ s with arr := s.arr.recount used }.setThread t (.writeUnlock idx used))
    whole := by
  have writes : (s.thread t).holding = .writing := by rw [thread]; rfl
  obtain ⟨inside, marked, changes⟩ : idx < s.arr.len ∧ s.arr = whole.mark idx used ∧
    used ≠ whole.isBitSet idx := by
    have shows := linear.shows t bound
    rwa [thread] at shows
  have held : HeldBy n (Function.update (fun u => (s.thread u).holding) t .writing) s.cnt := by
    rw [← writes, Function.update_eq_self]
    exact linear.held
  rw [← linear.len] at inside
  have sets : whole.set_used idx used = (s.arr.recount used, .ok 0) :=
    marked ▸ recount_mark inside changes
  exact linear.written (.writeUnlock idx used) bound writes held linear.run rfl linear.len sets
    fun other => absurd rfl other

theorem Linear.writeUnlock (linear : Linear n wraps arr₀ s whole) (bound : t < n)
    (thread : s.thread t = .writeUnlock idx used) :
    Linear n wraps arr₀ ({ s with cnt := (s.cnt + 1).bmod (2 ^ 32) }.finish t (setRequest idx used)
      (.ok 0)) s.arr := by
  have writes : (s.thread t).holding = .writing := by rw [thread]; rfl
  have sets : whole.set_used idx used = (s.arr, .ok 0) := by
    have shows := linear.shows t bound
    rwa [thread] at shows
  obtain ⟨held, negative⟩ := linear.held.stop_writing bound writes
  have isFree : (s.cnt + 1).bmod (2 ^ 32) = 0 := by
    rw [negative]
    rfl
  rw [isFree]
  refine linear.written .idle bound writes held (.next linear.run ?_) rfl rfl trivial fun _ => rfl
  exact call_setRequest.trans sets

theorem Linear.step {event : FbarrayEvent} (linear : Linear n wraps arr₀ s whole) (few : n < 2 ^ 31)
    (step : Step n wraps s event s') : ∃ whole', Linear n wraps arr₀ s' whole' := by
  obtain ⟨enabled, rfl⟩ := step
  cases event with
  | call t req =>
    obtain ⟨bound, thread⟩ := enabled
    exact ⟨whole, linear.wander bound (by rw [thread]; rfl) trivial⟩
  | step t =>
    have bound : t < n := enabled
    have shows := linear.shows t bound
    rw [apply]
    cases thread : s.thread t with
    | idle =>
      simp only [advance, thread]
      exact ⟨whole, linear⟩
    | check req => exact ⟨whole, linear.check bound thread⟩
    | readLock req =>
      rw [thread] at shows
      simp only [advance, thread]
      split_ifs with negative
      · exact ⟨whole, linear⟩
      · exact ⟨whole, linear.wander bound (by rw [thread]; rfl) ⟨shows, Int.not_lt.mp negative⟩⟩
    | readExchange req x =>
      rw [thread] at shows
      simp only [advance, thread]
      split_ifs with latest
      · exact ⟨whole, linear.read few bound thread latest⟩
      · exact ⟨whole, linear.wander bound (by rw [thread]; rfl) shows.1⟩
    | reading req =>
      rw [thread] at shows
      obtain ⟨query, settled⟩ := shows
      simp only [advance, thread]
      refine ⟨whole, linear.wander bound (by rw [thread]; rfl) ⟨?_, settled⟩⟩
      rw [settled]
      exact Prod.ext (call_of_query query) rfl
    | readUnlock req answer =>
      simp only [advance, thread]
      exact ⟨whole, linear.readUnlock few bound thread⟩
    | writeLock idx used =>
      rw [thread] at shows
      simp only [advance, thread]
      split_ifs
      · exact ⟨whole, linear⟩
      · exact ⟨whole, linear.wander bound (by rw [thread]; rfl) shows⟩
    | writeExchange idx used =>
      rw [thread] at shows
      simp only [advance, thread]
      split_ifs with isFree
      · exact ⟨whole, linear.write bound thread isFree⟩
      · exact ⟨whole, linear.wander bound (by rw [thread]; rfl) shows⟩
    | testing idx used =>
      rw [thread] at shows
      obtain ⟨inside, settled⟩ := shows
      simp only [advance, thread]
      split_ifs with same
      · refine ⟨whole, linear.wander bound (by rw [thread]; rfl) ?_⟩
        rw [settled] at inside same ⊢
        exact set_used_unchanged inside same
      · exact ⟨whole, linear.wander bound (by rw [thread]; rfl) ⟨inside, settled, settled ▸ same⟩⟩
    | marking idx used =>
      simp only [advance, thread]
      exact ⟨whole, linear.marking bound thread⟩
    | counting idx used =>
      simp only [advance, thread]
      exact ⟨whole, linear.counting bound thread⟩
    | writeUnlock idx used =>
      simp only [advance, thread]
      exact ⟨s.arr, linear.writeUnlock bound thread⟩

end Steps

section Results

end Results

end ConcurrentFbarray

end LinuxZero.Fbarray
