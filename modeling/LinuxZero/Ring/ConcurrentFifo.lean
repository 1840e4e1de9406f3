import LinuxZero.Ring.ConcurrentRing

/-! # First in, first out, in every interleaving

The reserved ranges fill the positions between the tails and the heads. A producer writes only to positions that no
consumer can reach yet, and a consumer reads only positions that no producer has reserved again, so that what
the consumers get, in the order in which their calls return, is what the producers put in.
-/

namespace LinuxZero.Ring

variable {α : Type*}

section Moved

variable {side : RingSide} {returned : List (RingRequest α × Outcome α)} {req : RingRequest α}
  {outcome : Outcome α}

theorem moved_append_of_side (same : req.side = side) : moved side (returned ++ [(req, outcome)]) =
    moved side returned ++ (List.range outcome.n.toNat).map outcome.obj_table := by
  simp [moved, List.filter_append, same]

theorem moved_append_of_ne (other : req.side ≠ side) : moved side (returned ++ [(req, outcome)]) =
    moved side returned := by
  simp [moved, List.filter_append, other]

theorem moved_append_of_zero (nothing : outcome.n = 0) : moved side (returned ++ [(req, outcome)]) =
    moved side returned := by
  by_cases same : req.side = side
  · rw [moved_append_of_side same, nothing]
    simp
  · exact moved_append_of_ne same

end Moved

/-- The number of moved objects that a thread has settled on. -/
def RingPhase.Granted : RingPhase α → Prop
  | .exchange req _ n entries _ | .copy req _ n entries _ _ _ | .updateTail req _ n entries _ _ =>
    n = limited req.behavior req.n entries
  | _ => True

namespace RteRing

variable {r : RteRing α} {ht : RteRingHeadtail} {side other : RingSide} {size : ℕ}

@[simp] theorem headtail_setHeadtail : (r.setHeadtail ht side).headtail side = ht := by cases side <;> rfl

theorem headtail_setHeadtail_of_ne (differ : other ≠ side) :
    (r.setHeadtail ht side).headtail other = r.headtail other := by
  cases side <;> cases other <;> first | rfl | exact absurd rfl differ

@[simp] theorem ring_setHeadtail : (r.setHeadtail ht side).ring = r.ring := by cases side <;> rfl

theorem Sized.setHeadtail (sized : r.Sized size) (ht : RteRingHeadtail) (side : RingSide) :
    (r.setHeadtail ht side).Sized size := by
  obtain ⟨positive, small, divides, slots, mask, capacity⟩ := sized
  cases side <;> exact ⟨positive, small, divides, slots, mask, capacity⟩

end RteRing

namespace ConcurrentRing

section Positions

variable (s : ConcurrentRing α)

/-- What the producers that have returned have put in. -/
def enqueued : List α := moved .prod s.returned

/-- What the consumers that have returned have got. -/
def dequeued : List α := moved .cons s.returned

/-- How far the tail has come. -/
def tailPos (side : RingSide) : ℕ := (moved side s.returned).length

/-- How far the head may come. -/
def limit (size : ℕ) : RingSide → ℕ
  | .prod => s.tailPos .cons + (size - 1)
  | .cons => s.tailPos .prod

/-- The elements that a thread has copied: into the slots of its positions, or out of them. -/
def Copied (size : ℕ) (req : RingRequest α) (pos done : ℕ) (obj_table : ℕ → α) : Prop :=
  match req.side with
  | .prod => ∀ k < done, s.ring.ring ((pos + k) % size) = obj_table k
  | .cons => ∀ k < done, s.enqueued[pos + k]? = some (obj_table k)

/-- What a thread knows where it is. -/
def Consistent (size : ℕ) (t : ℕ) : Prop :=
  match s.thread t with
  | .idle | .loadHead _ => True
  | .loadTail req old_head pos =>
    old_head = UInt32.ofNat pos ∧ pos ≤ s.headPos req.side ∧ (req.single ≠ 0 → pos = s.headPos req.side)
  | .exchange req old_head n _ pos =>
    (old_head = UInt32.ofNat pos ∧ pos ≤ s.headPos req.side ∧
      (req.single ≠ 0 → pos = s.headPos req.side)) ∧
      n ≠ 0 ∧ (pos = s.headPos req.side → pos + n.toNat ≤ s.limit size req.side)
  | .copy req old_head n _ pos done obj_table =>
    old_head = UInt32.ofNat pos ∧ done ≤ n.toNat ∧ s.Copied size req pos done obj_table
  | .updateTail req old_head n _ pos obj_table =>
    old_head = UInt32.ofNat pos ∧ s.Copied size req pos n.toNat obj_table

end Positions

/-- The indices stand for positions, the ranges between them are reserved, and the slots from the consumers' tail up
to the producers' tail hold what has been put in. -/
structure Orderly (size : ℕ) (s : ConcurrentRing α) : Prop where
  sized : s.ring.Sized size
  head : ∀ side, (s.ring.headtail side).head = UInt32.ofNat (s.headPos side)
  tail : ∀ side, (s.ring.headtail side).tail = UInt32.ofNat (s.tailPos side)
  tiled : ∀ side, Tiled (fun t => (s.thread t).held side) (s.tailPos side) (s.headPos side)
  bounded : ∀ side, s.headPos side ≤ s.limit size side
  threads : ∀ t, s.Consistent size t
  shares : ∀ t req, (s.thread t).request = some req → s.Shares t req
  stored : ∀ p, s.tailPos .cons ≤ p → ∀ v, s.enqueued[p]? = some v → s.ring.ring (p % size) = v
  inOrder : s.dequeued <+: s.enqueued

variable {s s' : ConcurrentRing α} {size t : ℕ} {phase : RingPhase α} {req : RingRequest α}
  {old_head n entries : UInt32} {pos done : ℕ} {obj_table : ℕ → α} {side : RingSide}

theorem orderly_initial {ring : ℕ → α} {count : UInt32} (flags : UInt32)
    (accepted : rte_ring_get_memsize count ≠ 0) (nonzero : count ≠ 0) :
    Orderly count.toNat (initial (rte_ring_init ring count flags)) where
  sized := sized_init ring flags accepted nonzero
  head side := by cases side <;> rfl
  tail side := by cases side <;> rfl
  tiled _ := .none 0
  bounded _ := Nat.zero_le _
  threads _ := trivial
  shares t req inside := by
    rw [initial, RingPhase.request] at inside
    contradiction
  stored p _ v present := by
    rw [enqueued, initial, moved] at present
    contradiction
  inOrder := List.prefix_rfl

section Projections

@[simp] theorem thread_setThread_self : (s.setThread t phase).thread t = phase := Function.update_self ..

theorem thread_setThread_of_ne {u : ℕ} (differ : u ≠ t) : (s.setThread t phase).thread u = s.thread u :=
  Function.update_of_ne differ ..

@[simp] theorem headPos_setThread : (s.setThread t phase).headPos side = s.headPos side := rfl

@[simp] theorem tailPos_setThread : (s.setThread t phase).tailPos side = s.tailPos side := rfl

@[simp] theorem limit_setThread : (s.setThread t phase).limit size side =
    s.limit size side := by cases side <;> rfl

theorem held_setThread : (fun u => ((s.setThread t phase).thread u).held side) =
    Function.update (fun u => (s.thread u).held side) t (phase.held side) := by
  funext u
  rcases eq_or_ne u t with rfl | differ
  · rw [thread_setThread_self, Function.update_self]
  · rw [thread_setThread_of_ne differ, Function.update_of_ne differ]

theorem headPos_moveHead_self {head : UInt32} : (s.moveHead side head n).headPos side =
    s.headPos side + n.toNat :=
  Function.update_self ..

theorem headPos_moveHead_of_ne {head : UInt32} {other : RingSide} (differ : other ≠ side) :
    (s.moveHead side head n).headPos other = s.headPos other := Function.update_of_ne differ ..

theorem headPos_le_moveHead {head : UInt32} (other : RingSide) :
    s.headPos other ≤ (s.moveHead side head n).headPos other := by
  rcases eq_or_ne other side with rfl | differ
  · rw [headPos_moveHead_self]
    exact Nat.le_add_right ..
  · rw [headPos_moveHead_of_ne differ]

@[simp] theorem limit_moveHead {head : UInt32} {other : RingSide} :
    (s.moveHead side head n).limit size other = s.limit size other := by cases other <;> rfl

end Projections

/-- Only what a thread knows about the heads, the limits, its slots and the objects matters. -/
theorem Consistent.env {u : ℕ} (consistent : s.Consistent size u) (thread : s'.thread u = s.thread u)
    (heads : ∀ side, s.headPos side ≤ s'.headPos side)
    (single : ∀ req, (s.thread u).request = some req → req.single ≠ 0 →
      s'.headPos req.side = s.headPos req.side)
    (limits : ∀ side, s.limit size side ≤ s'.limit size side)
    (slots : ∀ r, (s.thread u).held .prod = some r → ∀ p, r.1 ≤ p → p < r.2 →
      s'.ring.ring (p % size) = s.ring.ring (p % size))
    (enqueued : s.enqueued <+: s'.enqueued) : s'.Consistent size u := by
  have copied : ∀ {req : RingRequest α} {pos done n : ℕ} {obj_table : ℕ → α}, done ≤ n →
      (req.side = .prod → (s.thread u).held .prod = some (pos, pos + n)) →
      s.Copied size req pos done obj_table →
        s'.Copied size req pos done obj_table := by
    intro req pos done n obj_table bound held before
    unfold Copied at before ⊢
    cases side : req.side with
    | prod =>
      rw [side] at before
      intro k below
      rw [slots _ (held side) (pos + k) (Nat.le_add_right ..) (by dsimp only; omega)]
      exact before k below
    | cons =>
      rw [side] at before
      intro k below
      obtain ⟨later, same⟩ := enqueued
      rw [← same, List.getElem?_append_left (List.getElem?_eq_some_iff.mp (before k below)).1]
      exact before k below
  unfold Consistent at consistent ⊢
  rw [thread]
  cases phase : s.thread u with
  | idle | loadHead req => trivial
  | loadTail req old_head pos =>
    simp only [phase] at consistent
    obtain ⟨isHead, behind, alone⟩ := consistent
    refine ⟨isHead, behind.trans (heads _), fun isSingle => ?_⟩
    rw [single req (by rw [phase]; rfl) isSingle]
    exact alone isSingle
  | exchange req old_head n entries pos =>
    simp only [phase] at consistent
    obtain ⟨⟨isHead, behind, alone⟩, nonzero, fits⟩ := consistent
    refine ⟨⟨isHead, behind.trans (heads _), fun isSingle => ?_⟩, nonzero, fun latest => ?_⟩
    · rw [single req (by rw [phase]; rfl) isSingle]
      exact alone isSingle
    · have before : pos = s.headPos req.side := Nat.le_antisymm behind (latest ▸ heads _)
      exact (fits before).trans (limits _)
  | copy req old_head n entries pos done obj_table =>
    simp only [phase] at consistent
    obtain ⟨isHead, bound, before⟩ := consistent
    refine ⟨isHead, bound, copied bound (fun isProd => ?_) before⟩
    rw [phase, RingPhase.held, if_pos isProd]
  | updateTail req old_head n entries pos obj_table =>
    simp only [phase] at consistent
    obtain ⟨isHead, before⟩ := consistent
    refine ⟨isHead, copied le_rfl (fun isProd => ?_) before⟩
    rw [phase, RingPhase.held, if_pos isProd]

section Moves

/-- A thread shares its side with the others, whatever it does in its call. -/
theorem Orderly.shares_moved (orderly : Orderly size s) (thread : ∀ u, u ≠ t → s'.thread u = s.thread u)
    (own : ∀ req, (s'.thread t).request = some req → s.Shares t req) :
    ∀ u req, (s'.thread u).request = some req → s'.Shares u req := by
  intro u req inside v differ other inside' same
  by_cases isT : u = t
  · subst isT
    rw [thread v differ] at inside'
    exact own req inside v differ other inside' same
  · rw [thread u isT] at inside
    by_cases isT' : v = t
    · subst isT'
      exact (own other inside' u (Ne.symm differ) req inside same.symm).symm
    · rw [thread v isT'] at inside'
      exact orderly.shares u req inside v differ other inside' same

/-- A step that moves no index and writes no slot. -/
theorem Orderly.wander (orderly : Orderly size s)
    (held : ∀ side, phase.held side = (s.thread t).held side)
    (consistent : (s.setThread t phase).Consistent size t)
    (own : ∀ req, phase.request = some req → s.Shares t req) :
    Orderly size (s.setThread t phase) where
  sized := orderly.sized
  head := orderly.head
  tail := orderly.tail
  tiled side := by
    rw [held_setThread, held, Function.update_eq_self_iff.mpr rfl]
    exact orderly.tiled side
  bounded side := by
    rw [limit_setThread]
    exact orderly.bounded side
  threads u := by
    by_cases isT : u = t
    · rw [isT]
      exact consistent
    · exact (orderly.threads u).env (thread_setThread_of_ne isT) (fun _ => le_rfl)
        (fun _ _ _ => rfl) (fun _ => le_rfl)
        (fun _ _ _ _ _ => rfl) List.prefix_rfl
  shares := orderly.shares_moved (fun _ => thread_setThread_of_ne) fun req inside => own req (by
    rwa [thread_setThread_self] at inside)
  stored := orderly.stored
  inOrder := orderly.inOrder

/-- Calls that have moved nothing leave no trace. -/
theorem Orderly.of_moved {returned : List (RingRequest α × Outcome α)} (orderly : Orderly size s)
    (same : ∀ side, moved side returned = moved side s.returned) :
    Orderly size { s with returned := returned } := by
  have tails : ∀ side, tailPos { s with returned := returned } side = s.tailPos side := fun side =>
    congrArg List.length (same side)
  have limits : ∀ side, limit { s with returned := returned } size side = s.limit size side := by
    intro side
    cases side
    · exact congrArg (· + (size - 1)) (tails .cons)
    · exact tails .prod
  have puts : enqueued { s with returned := returned } = s.enqueued := same .prod
  constructor
  case sized => exact orderly.sized
  case head => exact orderly.head
  case tail =>
    intro side
    rw [tails]
    exact orderly.tail side
  case tiled =>
    intro side
    rw [tails]
    exact orderly.tiled side
  case bounded =>
    intro side
    rw [limits]
    exact orderly.bounded side
  case threads =>
    exact fun u => (orderly.threads u).env rfl (fun _ => le_rfl) (fun _ _ _ => rfl)
      (fun side => (limits side).ge)
      (fun _ _ _ _ _ => rfl) (puts ▸ List.prefix_rfl)
  case shares => exact orderly.shares
  case stored =>
    rw [tails, puts]
    exact orderly.stored
  case inOrder =>
    rw [puts, dequeued, same]
    exact orderly.inOrder

end Moves

section Indices

theorem ofNat_inj {p q : ℕ} (same : UInt32.ofNat p = UInt32.ofNat q) (lower : p ≤ q)
    (upper : q < p + 2 ^ 32) : p = q := by
  have values := congrArg UInt32.toNat same
  rw [UInt32.toNat_ofNat', UInt32.toNat_ofNat'] at values
  omega

/-- Tails, heads and limits in their order. -/
theorem Orderly.ordered (orderly : Orderly size s) : s.tailPos .cons ≤ s.headPos .cons ∧
    s.headPos .cons ≤ s.tailPos .prod ∧ s.tailPos .prod ≤ s.headPos .prod ∧
      s.headPos .prod ≤ s.tailPos .cons + (size - 1) :=
  ⟨(orderly.tiled .cons).ordered, orderly.bounded .cons, (orderly.tiled .prod).ordered,
    orderly.bounded .prod⟩

/-- The 32-bit difference is the number of positions up to the limit. -/
theorem Orderly.entries_eq (orderly : Orderly size s) (side : RingSide) :
    (s.ring.entries (UInt32.ofNat (s.headPos side)) side).toNat = s.limit size side - s.headPos side := by
  obtain ⟨first, second, third, fourth⟩ := orderly.ordered
  have small := orderly.sized.small
  have producer : s.ring.prod.tail = _ := orderly.tail .prod
  have consumer : s.ring.cons.tail = _ := orderly.tail .cons
  cases side with
  | prod =>
    rw [RteRing.entries, consumer, UInt32.toNat_sub, UInt32.toNat_add, UInt32.toNat_ofNat',
      UInt32.toNat_ofNat', orderly.sized.capacity, limit]
    omega
  | cons =>
    rw [RteRing.entries, producer, UInt32.toNat_sub, UInt32.toNat_ofNat', UInt32.toNat_ofNat', limit]
    omega

theorem held_request {r : ℕ × ℕ} (holds : phase.held side = some r) : ∃ req, phase.request =
    some req ∧ req.side = side := by
  cases phase with
  | idle | loadHead | loadTail | exchange => simp only [RingPhase.held, reduceCtorEq] at holds
  | copy req old_head n entries pos done obj_table | updateTail req old_head n entries pos obj_table =>
    rw [RingPhase.held] at holds
    split_ifs at holds with same
    exact ⟨req, rfl, same⟩

/-- What a thread has reserved is inside the ring. -/
theorem Orderly.inside (orderly : Orderly size s)
    (holds : (s.thread t).held side = some (pos, pos + n.toNat)) :
    s.tailPos side ≤ pos ∧ 0 < n.toNat ∧ pos + n.toNat ≤ s.headPos side ∧ n.toNat < size := by
  obtain ⟨lower, positive, upper⟩ := (orderly.tiled side).inside t _ holds
  obtain ⟨first, second, third, fourth⟩ := orderly.ordered
  have room := orderly.sized.positive
  dsimp only at lower positive upper
  refine ⟨lower, by omega, upper, ?_⟩
  cases side <;> omega

/-- Positions less than a round behind the consumers' tail have slots of their own. -/
theorem slot_ne {d p q : ℕ} (lowerP : d ≤ p) (upperP : p < d + size) (lowerQ : d ≤ q)
    (upperQ : q < d + size) (differ : p ≠ q) : p % size ≠ q % size := by
  intro same
  obtain ⟨i, rfl⟩ := Nat.exists_eq_add_of_le lowerP
  obtain ⟨j, rfl⟩ := Nat.exists_eq_add_of_le lowerQ
  exact differ (congrArg (d + ·) (slot_inj (by omega) (by omega) same))

/-- The next pair of a copy. -/
theorem Orderly.pair_eq (orderly : Orderly size s) (isHead : old_head = UInt32.ofNat pos)
    (room : n.toNat < size) {pair : UInt32 × UInt32}
    (next : (s.ring.copyPtrs old_head n)[done]? = some pair) :
    done < n.toNat ∧ pair.1.toNat = done ∧ pair.2.toNat = (pos + done) % size := by
  have pairs := congrArg (·[done]?) (orderly.sized.copyPtrs_eq old_head room.le)
  simp only [List.getElem?_map, next, Option.map_some] at pairs
  obtain ⟨k, isK, same⟩ := Option.map_eq_some_iff.mp pairs.symm
  obtain ⟨below, rfl⟩ := List.getElem?_eq_some_iff.mp isK
  rw [List.length_range] at below
  rw [List.getElem_range] at same
  obtain ⟨first, second⟩ := Prod.mk.inj same
  refine ⟨below, first.symm, ?_⟩
  have whole : pos % 2 ^ 32 % size = pos % size := Nat.mod_mod_of_dvd _ orderly.sized.divides
  rw [← second, isHead, UInt32.toNat_ofNat', Nat.add_mod, whole, ← Nat.add_mod]

theorem Orderly.done_eq (orderly : Orderly size s) (bound : done ≤ n.toNat) (room : n.toNat < size)
    (last : (s.ring.copyPtrs old_head n)[done]? = none) : done = n.toNat := by
  have pairs := congrArg List.length (orderly.sized.copyPtrs_eq old_head room.le)
  rw [List.length_map, List.length_map, List.length_range] at pairs
  have beyond := List.getElem?_eq_none_iff.mp last
  omega

end Indices

section Steps

theorem Orderly.loadHead (orderly : Orderly size s) (thread : s.thread t = .loadHead req) :
    Orderly size (s.setThread t
      (.loadTail req (s.ring.headtail req.side).head (s.headPos req.side))) := by
  refine orderly.wander ?_ ?_ ?_
  · intro side
    rw [thread]
    rfl
  · simp only [Consistent, thread_setThread_self]
    exact ⟨orderly.head req.side, le_rfl, fun _ => rfl⟩
  · rintro _ ⟨⟩
    exact orderly.shares t req (by rw [thread]; rfl)

/-- The number of elements is decided: none, or so many that they fit if the head is still where it was. -/
theorem Orderly.loadTail (orderly : Orderly size s) (thread : s.thread t = .loadTail req old_head pos) :
    Orderly size (s.advance t) := by
  have own := orderly.shares t req (by rw [thread]; rfl)
  have consistent := orderly.threads t
  simp only [Consistent, thread] at consistent
  simp only [advance, thread]
  split_ifs with nothing
  · have idle : Orderly size (s.setThread t .idle) := by
      refine orderly.wander ?_ ?_ ?_
      · intro side
        rw [thread]
        rfl
      · simp only [Consistent, thread_setThread_self]
      · rintro _ ⟨⟩
    exact idle.of_moved fun side => moved_append_of_zero rfl
  · refine orderly.wander ?_ ?_ ?_
    · intro side
      rw [thread]
      rfl
    · simp only [Consistent, thread_setThread_self]
      refine ⟨consistent, nothing, fun latest => ?_⟩
      rw [headPos_setThread] at latest
      have fits := granted_le req.behavior req.n.toNat (s.ring.entries old_head req.side).toNat
      have bounded := orderly.bounded req.side
      rw [← limited_toNat, consistent.1, latest, orderly.entries_eq] at fits
      rw [limit_setThread, consistent.1, latest]
      omega
    · rintro _ ⟨⟩
      exact own

/-- The head is moved: the positions behind it are reserved. -/
theorem Orderly.reserve (orderly : Orderly size s)
    (thread : s.thread t = .exchange req old_head n entries pos)
    (latest : pos = s.headPos req.side) :
    Orderly size ((s.moveHead req.side (old_head + n) n).setThread t
      (.copy req old_head n entries pos 0 req.obj_table)) := by
  have own := orderly.shares t req (by rw [thread]; rfl)
  have consistent := orderly.threads t
  simp only [Consistent, thread] at consistent
  obtain ⟨⟨isHead, _, _⟩, nonzero, fits⟩ := consistent
  have positive := toNat_pos nonzero
  have held : ∀ side, (s.thread t).held side = none := fun side => by rw [thread]; rfl
  constructor
  case sized => exact orderly.sized.setHeadtail ..
  case head =>
    intro side
    rw [headPos_setThread]
    change ((s.ring.setHeadtail _ req.side).headtail side).head = _
    rcases eq_or_ne side req.side with rfl | differ
    · rw [RteRing.headtail_setHeadtail, headPos_moveHead_self, isHead, latest, UInt32.ofNat_add,
        UInt32.ofNat_toNat]
    · rw [RteRing.headtail_setHeadtail_of_ne differ, headPos_moveHead_of_ne differ]
      exact orderly.head side
  case tail =>
    intro side
    change ((s.ring.setHeadtail _ req.side).headtail side).tail = UInt32.ofNat (s.tailPos side)
    rcases eq_or_ne side req.side with rfl | differ
    · rw [RteRing.headtail_setHeadtail]
      exact orderly.tail req.side
    · rw [RteRing.headtail_setHeadtail_of_ne differ]
      exact orderly.tail side
  case tiled =>
    intro side
    rw [held_setThread, headPos_setThread]
    rcases eq_or_ne side req.side with rfl | differ
    · rw [headPos_moveHead_self, RingPhase.held, if_pos rfl, latest]
      exact (orderly.tiled req.side).reserve (held req.side) positive
    · rw [headPos_moveHead_of_ne differ, RingPhase.held, if_neg differ.symm, ← held side]
      change Tiled (Function.update (fun u => (s.thread u).held side) t ((s.thread t).held side)) _ _
      rw [Function.update_eq_self_iff.mpr rfl]
      exact orderly.tiled side
  case bounded =>
    intro side
    rw [headPos_setThread, limit_setThread, limit_moveHead]
    rcases eq_or_ne side req.side with rfl | differ
    · rw [headPos_moveHead_self, ← latest]
      exact fits latest
    · rw [headPos_moveHead_of_ne differ]
      exact orderly.bounded side
  case threads =>
    intro u
    by_cases isT : u = t
    · subst isT
      simp only [Consistent, thread_setThread_self]
      refine ⟨isHead, Nat.zero_le _, ?_⟩
      unfold Copied
      split <;> exact fun k below => absurd below (Nat.not_lt_zero k)
    · refine (orderly.threads u).env (thread_setThread_of_ne isT) (fun side => ?_)
        (fun other inside isSingle => ?_)
        (fun side => ?_) (fun _ _ _ _ _ => ?_) List.prefix_rfl
      · rw [headPos_setThread]
        exact headPos_le_moveHead side
      · have differ : other.side ≠ req.side := fun same => isSingle (own u isT other inside same).2
        rw [headPos_setThread, headPos_moveHead_of_ne differ]
      · rw [limit_setThread, limit_moveHead]
      · change (s.ring.setHeadtail _ _).ring _ = _
        rw [RteRing.ring_setHeadtail]
  case shares =>
    refine orderly.shares_moved (fun _ => thread_setThread_of_ne) ?_
    rw [thread_setThread_self]
    rintro _ ⟨⟩
    exact own
  case stored =>
    intro p lower v present
    change (s.ring.setHeadtail _ _).ring _ = _
    rw [RteRing.ring_setHeadtail]
    exact orderly.stored p lower v present
  case inOrder => exact orderly.inOrder

/-- The exchange: it succeeds exactly while the head is where it was loaded. -/
theorem Orderly.exchange (orderly : Orderly size s)
    (thread : s.thread t = .exchange req old_head n entries pos) (fresh : s.Fresh t) :
    Orderly size (s.advance t) := by
  have consistent := orderly.threads t
  simp only [Consistent, thread] at consistent
  obtain ⟨⟨isHead, behind, alone⟩, _⟩ := consistent
  simp only [Fresh, thread] at fresh
  simp only [advance, thread, atomicCompareExchange]
  by_cases isSingle : req.single = 0
  · rw [if_neg (not_not_intro isSingle)]
    by_cases same : (s.ring.headtail req.side).head = old_head
    · rw [if_pos same]
      rw [orderly.head, isHead] at same
      exact orderly.reserve thread (ofNat_inj same.symm behind fresh)
    · rw [if_neg same]
      refine orderly.wander (fun side => by rw [thread]; rfl) ?_ ?_
      · simp only [Consistent, thread_setThread_self]
      · rintro _ ⟨⟩
        exact orderly.shares t req (by rw [thread]; rfl)
  · rw [if_pos isSingle]
    exact orderly.reserve thread (alone isSingle)

/-- A producer writes to a slot that holds no element, and that no other producer writes to. -/
theorem Orderly.copy_in (orderly : Orderly size s)
    (thread : s.thread t = .copy req old_head n entries pos done obj_table)
    (isProd : req.side = .prod) {pair : UInt32 × UInt32}
    (next : (s.ring.copyPtrs old_head n)[done]? = some pair) :
    Orderly size (s.copyOne t req old_head n entries pos done obj_table pair) := by
  have own := orderly.shares t req (by rw [thread]; rfl)
  have held : (s.thread t).held .prod = some (pos, pos + n.toNat) := by
    rw [thread, RingPhase.held, if_pos isProd]
  obtain ⟨lower, _, upper, room⟩ := orderly.inside held
  have consistent := orderly.threads t
  simp only [Consistent, thread] at consistent
  obtain ⟨isHead, _, copied⟩ := consistent
  obtain ⟨below, index, slot⟩ := orderly.pair_eq isHead room next
  obtain ⟨first, second, third, fourth⟩ := orderly.ordered
  have elsewhere : ∀ p, s.tailPos .cons ≤ p → p < s.headPos .prod → p ≠ pos + done →
      Function.update s.ring.ring pair.2.toNat (obj_table pair.1.toNat) (p % size) = s.ring.ring
        (p % size) := by
    intro p behind within differ
    rw [slot]
    have positive := orderly.sized.positive
    exact Function.update_of_ne (slot_ne behind (by omega) (by omega) (by omega) differ) ..
  simp only [copyOne, isProd]
  constructor
  case sized =>
    obtain ⟨positive, small, divides, slots, mask, capacity⟩ := orderly.sized
    exact ⟨positive, small, divides, slots, mask, capacity⟩
  case head => exact orderly.head
  case tail => exact orderly.tail
  case tiled =>
    intro side
    rw [held_setThread]
    have same : (RingPhase.copy req old_head n entries pos (done + 1) obj_table).held side =
      (s.thread t).held side := by
      rw [thread]
      rfl
    rw [same]
    exact (orderly.tiled side).congr fun u => congrFun (Function.update_eq_self_iff.mpr rfl) u
  case bounded =>
    intro side
    rw [limit_setThread]
    exact orderly.bounded side
  case threads =>
    intro u
    by_cases isT : u = t
    · subst isT
      simp only [Consistent, thread_setThread_self]
      refine ⟨isHead, below, ?_⟩
      simp only [Copied, isProd] at copied ⊢
      intro k bound
      change Function.update _ _ _ _ = _
      rcases Nat.lt_succ_iff_lt_or_eq.mp bound with before | rfl
      · rw [elsewhere (pos + k) (by omega) (by omega) (by omega)]
        exact copied k before
      · rw [slot, Function.update_self, index]
    · refine (orderly.threads u).env (thread_setThread_of_ne isT) (fun _ => le_rfl) (fun _ _ _ => rfl)
        (fun side => by cases side <;> exact le_rfl) (fun r holds p lowerP upperP => ?_) List.prefix_rfl
      obtain ⟨lowerR, _, upperR⟩ := (orderly.tiled .prod).inside u r holds
      refine elsewhere p (by omega) (by omega) ?_
      rintro rfl
      exact isT ((orderly.tiled .prod).eq_of_mem holds held ⟨lowerP, upperP⟩ ⟨by omega, by omega⟩)
  case shares =>
    refine orderly.shares_moved (fun _ => thread_setThread_of_ne) ?_
    rw [thread_setThread_self]
    rintro _ ⟨⟩
    exact own
  case stored =>
    intro p behind v present
    have within : p < s.tailPos .prod := (List.getElem?_eq_some_iff.mp present).1
    exact (elsewhere p behind (by omega) (by omega)).trans (orderly.stored p behind v present)
  case inOrder => exact orderly.inOrder

/-- A consumer reads an element that stays in its slot until the tail has passed. -/
theorem Orderly.copy_out (orderly : Orderly size s)
    (thread : s.thread t = .copy req old_head n entries pos done obj_table)
    (isCons : req.side = .cons) {pair : UInt32 × UInt32}
    (next : (s.ring.copyPtrs old_head n)[done]? = some pair) :
    Orderly size (s.copyOne t req old_head n entries pos done obj_table pair) := by
  have held : (s.thread t).held .cons = some (pos, pos + n.toNat) := by
    rw [thread, RingPhase.held, if_pos isCons]
  obtain ⟨lower, _, upper, room⟩ := orderly.inside held
  have consistent := orderly.threads t
  simp only [Consistent, thread] at consistent
  obtain ⟨isHead, _, copied⟩ := consistent
  obtain ⟨below, index, slot⟩ := orderly.pair_eq isHead room next
  obtain ⟨first, second, third, fourth⟩ := orderly.ordered
  simp only [copyOne, isCons]
  refine orderly.wander ?_ ?_ ?_
  · intro side
    rw [thread]
    rfl
  · simp only [Consistent, thread_setThread_self]
    refine ⟨isHead, below, ?_⟩
    simp only [Copied, isCons] at copied ⊢
    intro k bound
    rcases Nat.lt_succ_iff_lt_or_eq.mp bound with before | rfl
    · rw [index, Function.update_of_ne before.ne]
      exact copied k before
    · have within : pos + k < s.enqueued.length := by
        change _ < s.tailPos .prod
        omega
      rw [index, Function.update_self, slot]
      have present := List.getElem?_eq_getElem within
      exact present.trans (congrArg some (orderly.stored (pos + k) (by omega) _ present).symm)
  · rintro _ ⟨⟩
    exact orderly.shares t req (by rw [thread]; rfl)

theorem Orderly.copy (orderly : Orderly size s)
    (thread : s.thread t = .copy req old_head n entries pos done obj_table) :
    Orderly size (s.advance t) := by
  simp only [advance, thread]
  cases next : (s.ring.copyPtrs old_head n)[done]? with
  | some pair =>
    cases side : req.side with
    | prod => exact orderly.copy_in thread side next
    | cons => exact orderly.copy_out thread side next
  | none =>
    have held : (s.thread t).held req.side = some (pos, pos + n.toNat) := by
      rw [thread, RingPhase.held, if_pos rfl]
    obtain ⟨_, _, _, room⟩ := orderly.inside held
    have consistent := orderly.threads t
    simp only [Consistent, thread] at consistent
    obtain ⟨isHead, bound, copied⟩ := consistent
    refine orderly.wander (fun side => by rw [thread]; rfl) ?_ ?_
    · simp only [Consistent, thread_setThread_self]
      rw [orderly.done_eq bound room next] at copied
      exact ⟨isHead, copied⟩
    · rintro _ ⟨⟩
      exact orderly.shares t req (by rw [thread]; rfl)

/-- Whoever may move the tail has the first of the reserved ranges. -/
theorem Orderly.pos_eq_tail (orderly : Orderly size s)
    (thread : s.thread t = .updateTail req old_head n entries pos obj_table) (ready : ¬ s.Waits t) :
    pos = s.tailPos req.side := by
  have held : (s.thread t).held req.side = some (pos, pos + n.toNat) := by
    rw [thread, RingPhase.held, if_pos rfl]
  obtain ⟨lower, _, upper, room⟩ := orderly.inside held
  obtain ⟨first, second, third, fourth⟩ := orderly.ordered
  have small := orderly.sized.small
  have consistent := orderly.threads t
  simp only [Consistent, thread] at consistent
  simp only [Waits, thread, not_and, not_not] at ready
  by_cases isSingle : req.single = 0
  · have same := ready isSingle
    rw [orderly.tail, consistent.1] at same
    refine (ofNat_inj same lower ?_).symm
    cases side : req.side <;> rw [side] at upper <;> omega
  · have alone : ∀ u, u ≠ t → (s.thread u).held req.side = none := by
      intro u differ
      by_contra holds
      obtain ⟨r, isR⟩ := Option.ne_none_iff_exists'.mp holds
      obtain ⟨other, inside, same⟩ := held_request isR
      exact isSingle (orderly.shares t req (by rw [thread]; rfl) u differ other inside same).1
    exact congrArg Prod.fst ((orderly.tiled req.side).eq_of_alone held alone)

theorem prefix_append_map {front whole : List α} {count : ℕ} {f : ℕ → α} (isPrefix : front <+: whole)
    (values : ∀ k < count, whole[front.length + k]? = some (f k)) :
    front ++ (List.range count).map f <+: whole := by
  rw [List.prefix_iff_getElem?]
  intro i below
  rw [List.length_append, List.length_map, List.length_range] at below
  rcases Nat.lt_or_ge i front.length with before | beyond
  · rw [List.getElem_append_left before]
    exact List.prefix_iff_getElem?.mp isPrefix i before
  · obtain ⟨k, rfl⟩ := Nat.exists_eq_add_of_le beyond
    rw [List.getElem_append_right beyond, List.getElem_map, List.getElem_range, Nat.add_sub_cancel_left]
    exact values k (by omega)

/-- What a call does that returns with objects. -/
structure Completes (s : ConcurrentRing α) (t : ℕ) (req : RingRequest α) (pos : ℕ) (n : UInt32)
    (obj_table : ℕ → α) (s' : ConcurrentRing α) : Prop where
  threads : ∀ u, u ≠ t → s'.thread u = s.thread u
  idle : s'.thread t = .idle
  sized : ∀ size, s.ring.Sized size → s'.ring.Sized size
  slots : s'.ring.ring = s.ring.ring
  headPos : ∀ side, s'.headPos side = s.headPos side
  head : ∀ side, (s'.ring.headtail side).head = (s.ring.headtail side).head
  tail : (s'.ring.headtail req.side).tail = UInt32.ofNat (pos + n.toNat)
  tailOther : ∀ side, side ≠ req.side → (s'.ring.headtail side).tail = (s.ring.headtail side).tail
  objects : moved req.side s'.returned = moved req.side s.returned ++ (List.range n.toNat).map obj_table
  others : ∀ side, side ≠ req.side → moved side s'.returned = moved side s.returned

theorem completes_advance (thread : s.thread t = .updateTail req old_head n entries pos obj_table)
    (isHead : old_head = UInt32.ofNat pos) : Completes s t req pos n obj_table (s.advance t) := by
  simp only [advance, thread]
  constructor
  case threads => exact fun u differ => Function.update_of_ne differ ..
  case idle => exact Function.update_self ..
  case sized => exact fun size sized => sized.setHeadtail ..
  case slots => exact RteRing.ring_setHeadtail
  case headPos => exact fun side => rfl
  case head =>
    intro side
    change ((s.ring.setHeadtail _ req.side).headtail side).head = _
    rcases eq_or_ne side req.side with rfl | differ
    · rw [RteRing.headtail_setHeadtail]
    · rw [RteRing.headtail_setHeadtail_of_ne differ]
  case tail =>
    change ((s.ring.setHeadtail _ req.side).headtail req.side).tail = _
    rw [RteRing.headtail_setHeadtail, isHead, UInt32.ofNat_add, UInt32.ofNat_toNat]
  case tailOther =>
    intro side differ
    change ((s.ring.setHeadtail _ req.side).headtail side).tail = _
    rw [RteRing.headtail_setHeadtail_of_ne differ]
  case objects => exact moved_append_of_side rfl
  case others => exact fun side differ => moved_append_of_ne differ.symm

section Completed

variable (completes : Completes s t req pos n obj_table s')
include completes

theorem Completes.tailPos_own (first : pos = s.tailPos req.side) : s'.tailPos req.side =
    pos + n.toNat := by
  rw [tailPos, completes.objects, List.length_append, List.length_map, List.length_range, first, tailPos]

theorem Completes.tailPos_other (differ : side ≠ req.side) : s'.tailPos side = s.tailPos side :=
  congrArg List.length (completes.others side differ)

theorem Completes.tailPos_le (side : RingSide) : s.tailPos side ≤ s'.tailPos side := by
  rcases eq_or_ne side req.side with rfl | differ
  · rw [tailPos, tailPos, completes.objects, List.length_append]
    exact Nat.le_add_right ..
  · rw [completes.tailPos_other differ]

theorem Completes.limit_le (size : ℕ) (side : RingSide) : s.limit size side ≤ s'.limit size side := by
  cases side with
  | prod => exact Nat.add_le_add_right (completes.tailPos_le .cons) _
  | cons => exact completes.tailPos_le .prod

theorem Completes.enqueued_prefix : s.enqueued <+: s'.enqueued := by
  rw [enqueued, enqueued]
  rcases eq_or_ne .prod req.side with same | differ
  · rw [same, completes.objects]
    exact List.prefix_append ..
  · simp only [completes.others _ differ, List.prefix_rfl]

theorem Completes.held (side : RingSide) : (fun u => (s'.thread u).held side) =
    Function.update (fun u => (s.thread u).held side) t none := by
  funext u
  rcases eq_or_ne u t with rfl | differ
  · rw [completes.idle, Function.update_self]
    rfl
  · rw [completes.threads u differ, Function.update_of_ne differ]

/-- The slots up to the tail hold what has been put in, the copied objects included. -/
theorem Completes.stored (orderly : Orderly size s) (first : pos = s.tailPos req.side)
    (copied : s.Copied size req pos n.toNat obj_table) {p : ℕ} (lower : s'.tailPos .cons ≤ p) {v : α}
    (present : s'.enqueued[p]? = some v) : s'.ring.ring (p % size) = v := by
  rw [completes.slots]
  have behind := (completes.tailPos_le .cons).trans lower
  rw [enqueued] at present
  cases side : req.side with
  | prod =>
    rw [← side, completes.objects, side] at present
    rcases Nat.lt_or_ge p (moved .prod s.returned).length with before | beyond
    · rw [List.getElem?_append_left before] at present
      exact orderly.stored p behind v present
    · obtain ⟨k, rfl⟩ := Nat.exists_eq_add_of_le beyond
      rw [List.getElem?_append_right beyond, Nat.add_sub_cancel_left, List.getElem?_map] at present
      obtain ⟨j, isJ, rfl⟩ := Option.map_eq_some_iff.mp present
      obtain ⟨below, rfl⟩ := List.getElem?_eq_some_iff.mp isJ
      rw [List.length_range] at below
      simp only [Copied, side] at copied
      rw [List.getElem_range, ← copied k below, first, side, tailPos]
  | cons =>
    rw [completes.others .prod (by rw [side]; decide)] at present
    exact orderly.stored p behind v present

theorem Completes.inOrder (orderly : Orderly size s) (first : pos = s.tailPos req.side)
    (copied : s.Copied size req pos n.toNat obj_table) : s'.dequeued <+: s'.enqueued := by
  cases side : req.side with
  | prod =>
    rw [dequeued, completes.others .cons (by rw [side]; decide)]
    exact orderly.inOrder.trans completes.enqueued_prefix
  | cons =>
    rw [dequeued, enqueued, completes.others .prod (by rw [side]; decide), ← side,
      completes.objects, side]
    refine prefix_append_map orderly.inOrder fun k below => ?_
    simp only [Copied, side] at copied
    rw [first, side] at copied
    exact copied k below

end Completed

/-- The tail follows: a producer's elements may be read, a consumer's slots may be written to. -/
theorem Orderly.updateTail (orderly : Orderly size s)
    (thread : s.thread t = .updateTail req old_head n entries pos obj_table) (ready : ¬ s.Waits t) :
    Orderly size (s.advance t) := by
  have first := orderly.pos_eq_tail thread ready
  have held : (s.thread t).held req.side = some (pos, pos + n.toNat) := by
    rw [thread, RingPhase.held, if_pos rfl]
  have consistent := orderly.threads t
  simp only [Consistent, thread] at consistent
  obtain ⟨isHead, copied⟩ := consistent
  have completes := completes_advance thread isHead
  constructor
  case sized => exact completes.sized size orderly.sized
  case head =>
    intro side
    rw [completes.headPos, completes.head]
    exact orderly.head side
  case tail =>
    intro side
    rcases eq_or_ne side req.side with rfl | differ
    · rw [completes.tailPos_own first, completes.tail]
    · rw [completes.tailPos_other differ, completes.tailOther side differ]
      exact orderly.tail side
  case tiled =>
    intro side
    rw [completes.held, completes.headPos]
    rcases eq_or_ne side req.side with rfl | differ
    · rw [completes.tailPos_own first]
      exact (orderly.tiled req.side).release (first ▸ held)
    · have nothing : (s.thread t).held side = none := by rw [thread, RingPhase.held, if_neg differ.symm]
      rw [completes.tailPos_other differ, ← nothing]
      exact (orderly.tiled side).congr fun u => congrFun (Function.update_eq_self_iff.mpr rfl) u
  case bounded =>
    intro side
    rw [completes.headPos]
    exact (orderly.bounded side).trans (completes.limit_le size side)
  case threads =>
    intro u
    by_cases isT : u = t
    · subst isT
      simp only [Consistent, completes.idle]
    · exact (orderly.threads u).env (completes.threads u isT) (fun side => (completes.headPos side).ge)
        (fun req _ _ => completes.headPos req.side) (completes.limit_le size)
        (fun _ _ p _ _ => congrFun completes.slots (p % size)) completes.enqueued_prefix
  case shares =>
    refine orderly.shares_moved completes.threads ?_
    rw [completes.idle]
    rintro _ ⟨⟩
  case stored => exact fun p lower v present => completes.stored orderly first copied lower present
  case inOrder => exact completes.inOrder orderly first copied

theorem Orderly.step {event : ConcurrentRingEvent α} (orderly : Orderly size s)
    (step : CarefulStep s event s') :
    Orderly size s' := by
  obtain ⟨⟨enabled, rfl⟩, careful⟩ := step
  cases event with
  | call t req =>
    have thread : s.thread t = .idle := enabled
    refine orderly.wander ?_ ?_ ?_
    · intro side
      rw [thread]
      rfl
    · simp only [Consistent, thread_setThread_self]
    · rintro _ ⟨⟩
      exact careful
  | step t =>
    obtain ⟨busy, ready⟩ := enabled
    cases thread : s.thread t with
    | idle => exact absurd thread busy
    | loadHead req =>
      simp only [apply, advance, thread]
      exact orderly.loadHead thread
    | loadTail req old_head pos => exact orderly.loadTail thread
    | exchange req old_head n entries pos => exact orderly.exchange thread careful
    | copy req old_head n entries pos done obj_table => exact orderly.copy thread
    | updateTail req old_head n entries pos obj_table => exact orderly.updateTail thread ready

end Steps

section Results

/-- What a call reports, and which slots it has accessed. -/
def Reports (size : ℕ) (req : RingRequest α) (outcome : Outcome α) : Prop :=
  (∃ entries, outcome.n = limited req.behavior req.n entries ∧ outcome.entries = entries - outcome.n) ∧
    ∀ slot ∈ outcome.slots, slot.toNat < size

structure Granted (size : ℕ) (s : ConcurrentRing α) : Prop where
  threads : ∀ t, (s.thread t).Granted
  returned : ∀ call ∈ s.returned, Reports size call.1 call.2

theorem Granted.moved (granted : Granted size s) (thread : ∀ u, u ≠ t → s'.thread u = s.thread u)
    (own : (s'.thread t).Granted)
    (returned : ∀ call ∈ s'.returned, call ∈ s.returned ∨ Reports size call.1 call.2) :
    Granted size s' where
  threads u := by
    rcases eq_or_ne u t with rfl | differ
    · exact own
    · rw [thread u differ]
      exact granted.threads u
  returned call member := (returned call member).elim (granted.returned call) id

theorem Granted.setThread (granted : Granted size s) (own : phase.Granted) :
    Granted size (s.setThread t phase) :=
  granted.moved (fun _ => thread_setThread_of_ne) (by rwa [thread_setThread_self]) fun _ => Or.inl

theorem Granted.finish (granted : Granted size s) (settled : n = limited req.behavior req.n entries)
    (inside : ∀ slot ∈ (s.ring.copyPtrs old_head n).map Prod.snd, slot.toNat < size) :
    Granted size (s.finish t req old_head n entries obj_table) := by
  have idle : Granted size (s.setThread t .idle) := granted.setThread trivial
  refine idle.moved (t := t) (fun _ _ => rfl) ?_ fun call member => ?_
  · change (Function.update s.thread t .idle t).Granted
    rw [Function.update_self]
    trivial
  · rcases List.mem_append.mp member with before | last
    · exact Or.inl before
    · obtain rfl := List.mem_singleton.mp last
      exact Or.inr ⟨⟨entries, settled, rfl⟩, inside⟩

theorem Granted.step {event : ConcurrentRingEvent α} (granted : Granted size s) (orderly : Orderly size s)
    (step : CarefulStep s event s') : Granted size s' := by
  obtain ⟨⟨enabled, rfl⟩, _⟩ := step
  cases event with
  | call t req => exact granted.setThread trivial
  | step t =>
    have own := granted.threads t
    cases thread : s.thread t with
    | idle => exact absurd thread enabled.1
    | loadHead req =>
      simp only [apply, advance, thread]
      exact granted.setThread trivial
    | loadTail req old_head pos =>
      simp only [apply, advance, thread]
      split_ifs with nothing
      · refine granted.finish nothing.symm ?_
        rw [orderly.sized.copyPtrs_zero]
        exact fun slot member => absurd member List.not_mem_nil
      · exact granted.setThread rfl
    | exchange req old_head n entries pos =>
      rw [thread] at own
      simp only [apply, advance, thread, atomicCompareExchange]
      have reserved : ∀ head, Granted size
        ((s.moveHead req.side head n).setThread t
          (.copy req old_head n entries pos 0 req.obj_table)) :=
        fun head => granted.moved (fun _ => thread_setThread_of_ne) (by rwa [thread_setThread_self])
          fun _ => Or.inl
      by_cases isSingle : req.single = 0
      · rw [if_neg (not_not_intro isSingle)]
        by_cases same : (s.ring.headtail req.side).head = old_head
        · rw [if_pos same]
          exact reserved _
        · rw [if_neg same]
          exact granted.setThread trivial
      · rw [if_pos isSingle]
        exact reserved _
    | copy req old_head n entries pos done obj_table =>
      rw [thread] at own
      simp only [apply, advance, thread]
      cases (s.ring.copyPtrs old_head n)[done]? with
      | some pair =>
        simp only [copyOne]
        split
        · exact granted.moved (fun _ => thread_setThread_of_ne) (by rwa [thread_setThread_self])
            fun _ => Or.inl
        · exact granted.setThread own
      | none => exact granted.setThread own
    | updateTail req old_head n entries pos obj_table =>
      rw [thread] at own
      have held : (s.thread t).held req.side = some (pos, pos + n.toNat) := by
        rw [thread, RingPhase.held, if_pos rfl]
      obtain ⟨_, _, _, room⟩ := orderly.inside held
      simp only [apply, advance, thread]
      refine Granted.finish ⟨granted.threads, granted.returned⟩ own ?_
      exact (orderly.sized.setHeadtail ..).slots_lt old_head room.le

/-- The copy of a running call stays inside the ring. -/
theorem Orderly.slots_lt (orderly : Orderly size s) (t : ℕ) :
    ∀ slot ∈ (s.thread t).slots s.ring, slot.toNat < size := by
  cases thread : s.thread t with
  | idle | loadHead | loadTail | exchange => exact fun slot member => absurd member List.not_mem_nil
  | copy req old_head n entries pos done obj_table =>
    have held : (s.thread t).held req.side = some (pos, pos + n.toNat) := by
      rw [thread, RingPhase.held, if_pos rfl]
    exact orderly.sized.slots_lt old_head (orderly.inside held).2.2.2.le
  | updateTail req old_head n entries pos obj_table =>
    have held : (s.thread t).held req.side = some (pos, pos + n.toNat) := by
      rw [thread, RingPhase.held, if_pos rfl]
    exact orderly.sized.slots_lt old_head (orderly.inside held).2.2.2.le

theorem step_careful {t : ℕ} (busy : s.thread t ≠ .idle) (ready : ¬ s.Waits t) (fresh : s.Fresh t) :
    s.Enabled (.step t) ∧ s.Careful (.step t) := ⟨⟨busy, ready⟩, fresh⟩

/-- One object, put in by a producer that may not be alone. -/
def putOne (object : ℕ) : RingRequest ℕ where
  side := .prod
  obj_table _ := object
  n := 1
  behavior := .RTE_RING_QUEUE_FIXED
  single := isMp

end Results

end ConcurrentRing

end LinuxZero.Ring
