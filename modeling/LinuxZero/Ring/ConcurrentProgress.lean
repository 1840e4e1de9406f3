import Mathlib.Algebra.Group.Action.Defs
import LinuxZero.Lib.ThreadSum
import LinuxZero.Ring.ConcurrentFifo

/-! # Calls come to an end

An exchange fails only when another thread has moved the head since it was loaded, so that the threads that have not
reserved anything yet get fewer. Whoever holds the first range of a side never waits.
-/

namespace LinuxZero.Ring

variable {α : Type*}

/-- A bound on the steps of one thread until the next head moves; reserving is paid for with `weight`. A thread
that has loaded an old head has to load it again. -/
def RingPhase.work (headPos : RingSide → ℕ) (weight : ℕ) : RingPhase α → ℕ
  | .idle => 0
  | .loadHead _ => weight + 3
  | .loadTail req _ pos => weight + if pos = headPos req.side then 2 else 5
  | .exchange req _ _ _ pos => weight + if pos = headPos req.side then 1 else 4
  | .copy _ _ n _ _ done _ => n.toNat - done + 2
  | .updateTail _ _ _ _ _ _ => 1

theorem RingPhase.work_le_add (headPos headPos' : RingSide → ℕ) (weight : ℕ) (phase : RingPhase α) :
    phase.work headPos' weight ≤ phase.work headPos weight + 3 := by
  cases phase with
  | idle | loadHead | copy | updateTail => simp only [RingPhase.work, Nat.le_add_right]
  | loadTail | exchange =>
    simp only [RingPhase.work]
    split_ifs <;> omega

namespace ConcurrentRing

variable {s s' : ConcurrentRing α} {size t threads : ℕ} {req : RingRequest α}
  {old_head n entries : UInt32}
  {pos done : ℕ} {obj_table : ℕ → α}

/-- A step of a thread that is inside a call. -/
def Onward (s : ConcurrentRing α) (t : ℕ) (s' : ConcurrentRing α) : Prop := CarefulStep s (.step t) s'

/-- Only threads below `threads` are inside calls. -/
def Within (threads : ℕ) (s : ConcurrentRing α) : Prop := ∀ t, s.thread t ≠ .idle → t < threads

/-- A thread that has reserved its positions is paid for `size` copies, and the others may have become stale. -/
def weight (threads size : ℕ) : ℕ := 3 * threads + size + 1

def work (threads size : ℕ) (s : ConcurrentRing α) : ℕ :=
  ∑ t ∈ Finset.range threads, (s.thread t).work s.headPos (weight threads size)

section Progress

/-- Some thread inside a call has a step that does not wait. -/
theorem Orderly.exists_enabled (orderly : Orderly size s) (busy : s.thread t ≠ .idle) :
    ∃ u, s.Enabled (.step u) := by
  by_cases waits : s.Waits t
  swap
  · exact ⟨t, busy, waits⟩
  cases thread : s.thread t with
  | idle => exact absurd thread busy
  | loadHead | loadTail | exchange | copy =>
    simp only [Waits, thread] at waits
  | updateTail req old_head n entries pos obj_table =>
    have held : (s.thread t).held req.side = some (pos, pos + n.toNat) := by
      rw [thread, RingPhase.held, if_pos rfl]
    obtain ⟨lower, positive, upper, _⟩ := orderly.inside held
    -- The first range of the side is held by a thread that copies, or that sees its own head as the tail.
    obtain ⟨u, stop, holds⟩ := (orderly.tiled req.side).exists_first (by omega)
    refine ⟨u, ?_, ?_⟩
    · intro idle
      simp only [idle, RingPhase.held, reduceCtorEq] at holds
    · intro waits'
      cases first : s.thread u with
      | idle | loadHead | loadTail | exchange | copy =>
        simp only [Waits, first] at waits'
      | updateTail other old_head' n' entries' pos' obj_table' =>
        rw [first, RingPhase.held] at holds
        split_ifs at holds with same
        obtain ⟨isTail, _⟩ := Prod.mk.inj (Option.some.inj holds)
        have consistent := orderly.threads u
        simp only [Consistent, first] at consistent
        simp only [Waits, first] at waits'
        apply waits'.2
        rw [orderly.tail, consistent.1, isTail, same]

theorem thread_advance_of_ne {u : ℕ} (differ : u ≠ t) : (s.advance t).thread u = s.thread u := by
  cases thread : s.thread t with
  | idle => simp only [advance, thread]
  | loadHead req =>
    simp only [advance, thread]
    exact thread_setThread_of_ne differ
  | loadTail req old_head pos =>
    simp only [advance, thread]
    split_ifs
    · exact Function.update_of_ne differ ..
    · exact thread_setThread_of_ne differ
  | exchange req old_head n entries pos =>
    simp only [advance, thread]
    split_ifs
    · exact thread_setThread_of_ne differ
    · split <;> exact thread_setThread_of_ne differ
  | copy req old_head n entries pos done obj_table =>
    simp only [advance, thread]
    split
    · unfold copyOne
      split <;> exact thread_setThread_of_ne differ
    · exact thread_setThread_of_ne differ
  | updateTail req old_head n entries pos obj_table =>
    simp only [advance, thread]
    exact Function.update_of_ne differ ..

theorem Orderly.copy_room (orderly : Orderly size s)
    (thread : s.thread t = .copy req old_head n entries pos done obj_table) :
    n.toNat < size := by
  have held : (s.thread t).held req.side = some (pos, pos + n.toNat) := by
    rw [thread, RingPhase.held, if_pos rfl]
  exact (orderly.inside held).2.2.2

/-- A thread gets closer to its end, or it reserves its positions. -/
theorem Orderly.own_work (orderly : Orderly size s) (busy : s.thread t ≠ .idle) (fresh : s.Fresh t)
    (weight : ℕ) :
    (s.advance t).headPos = s.headPos ∧
    ((s.advance t).thread t).work s.headPos weight < (s.thread t).work s.headPos weight ∨
      (s.thread t).work s.headPos weight = weight + 1 ∧
        ((s.advance t).thread t).work (s.advance t).headPos weight ≤ size + 1 := by
  cases thread : s.thread t with
  | idle => exact absurd thread busy
  | loadHead req =>
    refine Or.inl ?_
    simp only [advance, thread, thread_setThread_self]
    refine ⟨rfl, ?_⟩
    simp only [RingPhase.work, if_pos]
    exact Nat.lt_succ_self _
  | loadTail req old_head pos =>
    refine Or.inl ?_
    simp only [advance, thread]
    split_ifs
    · refine ⟨rfl, ?_⟩
      rw [finish, thread_setThread_self, RingPhase.work, RingPhase.work]
      split_ifs <;> omega
    · refine ⟨rfl, ?_⟩
      rw [thread_setThread_self, RingPhase.work, RingPhase.work]
      split_ifs <;> omega
  | exchange req old_head n entries pos =>
    have consistent := orderly.threads t
    simp only [Consistent, thread] at consistent
    obtain ⟨⟨isHead, behind, alone⟩, _⟩ := consistent
    have reserves : (s.advance t).thread t = .copy req old_head n entries pos 0 req.obj_table →
        pos = s.headPos req.side →
        (RingPhase.exchange req old_head n entries pos).work s.headPos weight = weight + 1 ∧
          ((s.advance t).thread t).work (s.advance t).headPos weight ≤ size + 1 := by
      intro copies latest
      have room := (orderly.exchange thread fresh).copy_room copies
      simp only [copies, RingPhase.work, if_pos latest, true_and]
      omega
    simp only [Fresh, thread] at fresh
    simp only [advance, thread, atomicCompareExchange] at reserves ⊢
    by_cases isSingle : req.single = 0
    · rw [if_neg (not_not_intro isSingle)] at reserves ⊢
      by_cases same : (s.ring.headtail req.side).head = old_head
      · rw [if_pos same] at reserves ⊢
        rw [orderly.head, isHead] at same
        exact Or.inr (reserves thread_setThread_self (ofNat_inj same.symm behind fresh))
      · -- The exchange fails: the loaded head was an old one.
        rw [if_neg same]
        have stale : pos ≠ s.headPos req.side := by
          intro latest
          exact same (by rw [orderly.head, isHead, latest])
        refine Or.inl ⟨rfl, ?_⟩
        simp only [thread_setThread_self, RingPhase.work, if_neg stale]
        exact Nat.lt_succ_self _
    · rw [if_pos isSingle] at reserves ⊢
      exact Or.inr (reserves thread_setThread_self (alone isSingle))
  | copy req old_head n entries pos done obj_table =>
    refine Or.inl ?_
    have consistent := orderly.threads t
    simp only [Consistent, thread] at consistent
    simp only [advance, thread]
    cases next : (s.ring.copyPtrs old_head n)[done]? with
    | some pair =>
      obtain ⟨below, _⟩ := orderly.pair_eq consistent.1 (orderly.copy_room thread) next
      simp only [copyOne]
      split <;> refine ⟨rfl, ?_⟩ <;> simp only [thread_setThread_self, RingPhase.work] <;> omega
    | none =>
      refine ⟨rfl, ?_⟩
      simp only [thread_setThread_self, RingPhase.work]
      omega
  | updateTail req old_head n entries pos obj_table =>
    refine Or.inl ?_
    simp only [advance, thread]
    refine ⟨rfl, ?_⟩
    rw [finish, thread_setThread_self, RingPhase.work, RingPhase.work]
    exact Nat.zero_lt_one

theorem Within.step (within : Within threads s) (onward : Onward s t s') : Within threads s' := by
  obtain ⟨⟨⟨busy, _⟩, rfl⟩, _⟩ := onward
  intro u busy'
  by_cases same : u = t
  · exact same ▸ within t busy
  · exact within u fun idle => busy' ((thread_advance_of_ne same).trans idle)

theorem Orderly.work_lt (orderly : Orderly size s) (within : Within threads s) (onward : Onward s t s') :
    s'.work threads size < s.work threads size := by
  obtain ⟨⟨⟨busy, _⟩, rfl⟩, fresh⟩ := onward
  have bound := within t busy
  have others : ∀ u, u ≠ t → (s.advance t).thread u = s.thread u := fun u differ =>
    thread_advance_of_ne differ
  rcases orderly.own_work busy fresh (weight threads size) with ⟨same, closer⟩ | ⟨reserving, reserved⟩
  · unfold work
    rw [apply, same]
    exact sum_closer (fun phase => phase.work s.headPos (weight threads size)) bound others closer
  · -- The others lose at most three steps each, which is less than what the reservation was paid with.
    have member := Finset.mem_range.mpr bound
    have rest : ∑ u ∈ (Finset.range threads).erase t, ((s.advance t).thread u).work
      (s.advance t).headPos (weight threads size) ≤
        ∑ u ∈ (Finset.range threads).erase t,
        ((s.thread u).work s.headPos (weight threads size) + 3) := by
      refine Finset.sum_le_sum fun u other => ?_
      rw [others u (Finset.ne_of_mem_erase other)]
      exact RingPhase.work_le_add ..
    rw [Finset.sum_add_distrib, Finset.sum_const, smul_eq_mul, Finset.card_erase_of_mem member,
      Finset.card_range] at rest
    unfold work
    rw [apply, ← Finset.add_sum_erase _ _ member, ← Finset.add_sum_erase _ _ member, reserving]
    unfold weight at *
    omega

theorem Orderly.work_le (orderly : Orderly size s) (threads : ℕ) :
    s.work threads size ≤ threads * (3 * threads + size + 6) := by
  refine (Finset.sum_le_card_nsmul _ _ (weight threads size + 5) fun t _ => ?_).trans ?_
  · cases thread : s.thread t with
    | idle | loadHead | updateTail => simp only [RingPhase.work]; omega
    | loadTail | exchange =>
      simp only [RingPhase.work]
      split_ifs <;> omega
    | copy req old_head n entries pos done obj_table =>
      have room := orderly.copy_room thread
      simp only [RingPhase.work, weight]
      omega
  · rw [Finset.card_range, smul_eq_mul]
    rfl

/-- The steps that have been made and those that are left. -/
theorem Orderly.work_run {steps : List ℕ} (orderly : Orderly size s) (within : Within threads s)
    (run : Run Onward s steps s') :
    Orderly size s' ∧ s'.work threads size + steps.length ≤ s.work threads size := by
  obtain ⟨orderly', _, spent⟩ := run.history
    (fun steps s' => Orderly size s' ∧ Within threads s' ∧
    s'.work threads size + steps.length ≤ s.work threads size)
    (fun steps u t v ⟨orderly, within, spent⟩ onward => by
      have less := orderly.work_lt within onward
      refine ⟨orderly.step onward, within.step onward, ?_⟩
      rw [List.length_append, List.length_singleton]
      omega)
    ⟨orderly, within, le_rfl⟩
  exact ⟨orderly', spent⟩

end Progress

section Results

/-- However the threads are scheduled, as long as the steps are `Careful`, the calls of `threads` threads return after a
bounded number of them: nobody can be kept in the loop of the exchange for ever, and as long as a call is left, some
call has a step. -/
theorem concurrent_ring_completes {ring : ℕ → α} {count flags : UInt32}
    (accepted : rte_ring_get_memsize count ≠ 0) (nonzero : count ≠ 0)
    {events : List (ConcurrentRingEvent α)}
    (run : Run CarefulStep (initial (rte_ring_init ring count flags)) events s)
    (within : Within threads s) {steps : List ℕ} (onward : Run Onward s steps s') :
    steps.length ≤ threads * (3 * threads + count.toNat + 6) ∧
      ((∀ t, ¬ s'.Enabled (.step t)) ↔ ∀ t, s'.thread t = .idle) := by
  have orderly := run.invariant (Orderly count.toNat) (fun _ _ _ orderly step => orderly.step step)
    (orderly_initial flags accepted nonzero)
  obtain ⟨orderly', spent⟩ := orderly.work_run within onward
  refine ⟨?_, ?_, ?_⟩
  · exact (Nat.le_of_add_left_le spent).trans (orderly.work_le threads)
  · intro stuck t
    by_contra busy
    obtain ⟨u, enabled⟩ := orderly'.exists_enabled busy
    exact stuck u enabled
  · intro idle t enabled
    exact enabled.1 (idle t)

/-- Two producers are inside a call; the exchange of the second one fails once. -/
theorem twoProducers_complete : ∃ s s', Run CarefulStep (initial (rte_ring_init (fun _ => 0) 4 0))
    [.call 0 (putOne 10), .call 1 (putOne 20)] s ∧
    Run Onward s [0, 1, 0, 1, 0, 1, 1, 1, 1, 1, 1, 0, 0, 0, 1] s' ∧
      15 ≤ 2 * (3 * 2 + 4 + 6) ∧ ((∀ t, ¬ s'.Enabled (.step t)) ↔ ∀ t, s'.thread t = .idle) := by
  have calls : Run.Replays (fun s event => s.Enabled event ∧ s.Careful event) apply
      (initial (rte_ring_init (fun _ => 0) 4 0)) [.call 0 (putOne 10), .call 1 (putOne 20)] := by
    refine ⟨⟨rfl, fun u _ other inside _ => ?_⟩, ⟨rfl, fun u _ other inside _ => ?_⟩, trivial⟩
    · cases inside
    · rcases u with _ | u <;> cases inside
      exact ⟨rfl, rfl⟩
  have replays : Run.Replays (fun s t => s.Enabled (.step t) ∧ s.Careful (.step t))
    (fun s t => s.apply (.step t))
      ([.call 0 (putOne 10), .call 1 (putOne 20)].foldl apply (initial (rte_ring_init (fun _ => 0) 4 0)))
      [0, 1, 0, 1, 0, 1, 1, 1, 1, 1, 1, 0, 0, 0, 1] := by
    iterate 15 refine ⟨step_careful (by decide +kernel) (by decide +kernel) (by decide +kernel), ?_⟩
    trivial
  have run := Run.of_replays_guarded _ _ calls
  have onward := Run.of_replays_guarded _ _ replays
  have within : Within 2
    ([.call 0 (putOne 10), .call 1 (putOne 20)].foldl
    apply (initial (rte_ring_init (fun _ => 0) 4 0))) := by
    rintro (_ | _ | t) busy
    · exact Nat.zero_lt_two
    · exact Nat.one_lt_two
    · exact absurd rfl busy
  exact ⟨_, _, run, onward, concurrent_ring_completes (by decide) (by decide) run within onward⟩

end Results

end ConcurrentRing

end LinuxZero.Ring
