import LinuxZero.Lib.FifoMatching
import LinuxZero.Vpn.ChannelAccept
import LinuxZero.Vpn.ChannelCreation

/-! # Pairing the connections of a channel

The two listeners of a channel match their connections in order of arrival. The invariant relates the
four queues, the pointers between the connections and the calls of `add_eool` to the matching that
the two arrival orders determine.
-/

namespace LinuxZero.Vpn

inductive Side where
  | out
  | in_
deriving DecidableEq, Repr

namespace DataChannelServer

/-- A channel whose listeners `o` and `i` have not accepted anything. -/
structure FreshChannel (s : DataChannelServer) (o i : ℕ) : Prop where
  apart : o ≠ i
  outRemovte : (s.server o).removte = i
  inRemovte : (s.server i).removte = o
  outType : (s.server o).type = 1
  inType : (s.server i).type ≠ 1
  outFree : (s.server o).freeSocket = []
  inFree : (s.server i).freeSocket = []
  outAccepted : s.trace.accepted o = []
  inAccepted : s.trace.accepted i = []

/-- The listener of a side. -/
def sidePtr (o i : ℕ) : Side → ℕ
  | .out => o
  | .in_ => i

/-- Any sequence of rounds of `run_accept` for the two listeners, with the descriptors that `accept`
may return. -/
def acceptAll (s : DataChannelServer) (o i : ℕ) (arrivals : List (Side × ℤ)) : DataChannelServer :=
  arrivals.foldl (fun s arrival => s.runAccept (sidePtr o i arrival.1) arrival.2) s

/-- The calls of `add_eool` for a pair, the in side first, each with its peer and itself behind it;
`isOut` says whether the first component is the out side. -/
def eoolCalls (isOut : Bool) (pair : ℕ × ℕ) : List EoolCall :=
  if isOut then [⟨pair.2, some pair.1, some pair.2⟩, ⟨pair.1, some pair.2, some pair.1⟩]
  else [⟨pair.1, some pair.2, some pair.1⟩, ⟨pair.2, some pair.1, some pair.2⟩]

/-- The listeners `w` and `v` of a channel are in the state that their arrival orders determine;
`isOut` says whether `w` is the out side. -/
structure Matched (before : List EoolCall) (isOut : Bool) (w v : ℕ) (xs ys : List ℕ)
    (s : DataChannelServer) : Prop where
  apart : w ≠ v
  removte : (s.server w).removte = v
  backRemovte : (s.server v).removte = w
  type : (s.server w).type = 1 ↔ isOut = true
  backType : (s.server v).type = 1 ↔ isOut = false
  accepted : s.trace.accepted w = xs
  backAccepted : s.trace.accepted v = ys
  free : (s.server w).freeSocket = (Matching.ofArrivals xs ys).left
  backFree : (s.server v).freeSocket = (Matching.ofArrivals xs ys).right
  allocated : ∀ p ∈ xs ++ ys, p < s.sockets.next
  distinct : (xs ++ ys).Nodup
  isOpen : ∀ p ∈ xs ++ ys, s.kernel.files (s.socket p).fd ≠ none
  waiting : ∀ p ∈ (Matching.ofArrivals xs ys).left, (s.socket p).data.ptr = some p
  backWaiting : ∀ p ∈ (Matching.ofArrivals xs ys).right, (s.socket p).data.ptr = some p
  paired : ∀ pair ∈ (Matching.ofArrivals xs ys).pairs,
    (s.socket pair.1).data.ptr = some pair.2 ∧ (s.socket pair.2).data.ptr = some pair.1
  eool : s.trace.eool = before ++ (Matching.ofArrivals xs ys).pairs.flatMap (eoolCalls isOut)

variable {s : DataChannelServer} {before : List EoolCall} {isOut : Bool} {w v o i : ℕ} {xs ys : List ℕ}

theorem FreshChannel.matched (fresh : FreshChannel s o i) : Matched s.trace.eool true o i [] [] s where
  apart := fresh.apart
  removte := fresh.outRemovte
  backRemovte := fresh.inRemovte
  type := by simp [fresh.outType]
  backType := by simp [fresh.inType]
  accepted := fresh.outAccepted
  backAccepted := fresh.inAccepted
  free := fresh.outFree
  backFree := fresh.inFree
  allocated p member := nomatch member
  distinct := List.nodup_nil
  isOpen p member := nomatch member
  waiting p member := nomatch member
  backWaiting p member := nomatch member
  paired pair member := nomatch member
  eool := by simp [Matching.ofArrivals]

private theorem eoolCalls_swap (isOut : Bool) (pairs : List (ℕ × ℕ)) :
    (pairs.map Prod.swap).flatMap (eoolCalls (!isOut)) = pairs.flatMap (eoolCalls isOut) := by
  rw [List.flatMap_map]
  congr 1
  funext pair
  cases isOut <;> rfl

/-- Both listeners play the same part. -/
theorem Matched.swap (matched : Matched before isOut w v xs ys s) :
    Matched before (!isOut) v w ys xs s where
  apart := matched.apart.symm
  removte := matched.backRemovte
  backRemovte := matched.removte
  type := by simpa using matched.backType
  backType := by simpa using matched.type
  accepted := matched.backAccepted
  backAccepted := matched.accepted
  free := matched.backFree
  backFree := matched.free
  allocated p member := matched.allocated p (by simpa [or_comm] using member)
  distinct := List.perm_append_comm.nodup_iff.mp matched.distinct
  isOpen p member := matched.isOpen p (by simpa [or_comm] using member)
  waiting := matched.backWaiting
  backWaiting := matched.waiting
  paired pair member := by
    have swapped : pair.swap ∈ (Matching.ofArrivals xs ys).pairs := by
      rw [← Matching.swap_ofArrivals xs ys] at member
      obtain ⟨other, isPair, rfl⟩ := List.mem_map.mp member
      exact isPair
    exact (matched.paired _ swapped).symm
  eool := by
    rw [matched.eool, ← Matching.swap_ofArrivals xs ys, Matching.swap, eoolCalls_swap]

/-- The listener of an arrival is the first one. -/
private theorem mem_left {p : ℕ} (member : p ∈ (Matching.ofArrivals xs ys).left) : p ∈ xs :=
  List.mem_of_mem_drop member

private theorem mem_right {p : ℕ} (member : p ∈ (Matching.ofArrivals xs ys).right) : p ∈ ys :=
  List.mem_of_mem_drop member

private theorem mem_pair {pair : ℕ × ℕ} (member : pair ∈ (Matching.ofArrivals xs ys).pairs) :
    pair.1 ∈ xs ∧ pair.2 ∈ ys := List.of_mem_zip member

/-- A round of `run_accept` that changes nothing. -/
private theorem Matched.refused (matched : Matched before isOut w v xs ys s) (u : ℕ) :
    Matched before isOut w v xs ys (s.useServer u) := { matched with }

/-- What holds of the newcomer and of the older connections, whether it waits or not. -/
private theorem Matched.newcomer {fd : ℤ} {t : DataChannelServer}
    (matched : Matched before isOut w v xs ys s) (accepts : Accepts s w fd t) :
    (∀ p ∈ xs ++ ys, p ≠ s.sockets.next) ∧ t.trace.accepted w = xs ++ [s.sockets.next] ∧
      t.trace.accepted v = ys ∧ (∀ p ∈ xs ++ [s.sockets.next] ++ ys, p < t.sockets.next) ∧
      (xs ++ [s.sockets.next] ++ ys).Nodup := by
  have old : ∀ p ∈ xs ++ ys, p ≠ s.sockets.next := fun p member =>
    Nat.ne_of_lt (matched.allocated p member)
  refine ⟨old, ?_, ?_, ?_, ?_⟩
  · rw [accepts.accepted, Function.update_self, matched.accepted]
  · rw [accepts.accepted, Function.update_of_ne matched.apart.symm, matched.backAccepted]
  · intro p member
    rw [accepts.next]
    rw [List.append_assoc, List.mem_append, List.mem_append, List.mem_singleton] at member
    rcases member with left | rfl | right
    · exact (matched.allocated p (List.mem_append_left _ left)).trans (Nat.lt_succ_self _)
    · exact Nat.lt_succ_self _
    · exact (matched.allocated p (List.mem_append_right _ right)).trans (Nat.lt_succ_self _)
  · rw [List.append_assoc, List.singleton_append, List.perm_middle.nodup_iff, List.nodup_cons]
    exact ⟨fun member => old _ member rfl, matched.distinct⟩

/-- Accepting closes nothing, if no older connection gets another descriptor. -/
private theorem Matched.isOpen_accepts {fd : ℤ} {t : DataChannelServer}
    (matched : Matched before isOut w v xs ys s) (accepts : Accepts s w fd t)
    (newcomer : (t.socket s.sockets.next).fd = fd)
    (sameFd : ∀ p ∈ xs ++ ys, (t.socket p).fd = (s.socket p).fd) :
    ∀ p ∈ xs ++ [s.sockets.next] ++ ys, t.kernel.files (t.socket p).fd ≠ none := by
  intro p member
  rw [accepts.files]
  rw [List.append_assoc, List.singleton_append, List.perm_middle.mem_iff, List.mem_cons] at member
  rcases member with rfl | member
  · rw [newcomer, Function.update_self]
    exact Option.some_ne_none _
  · have isOpen := matched.isOpen p member
    rw [sameFd p member, Function.update_of_ne (accepts.available.ne isOpen)]
    exact isOpen

/-- A waiting connection of the other side is none of this side. -/
private theorem Matched.notMem_of_waits {b : ℕ} (matched : Matched before isOut w v xs ys s)
    (waits : b ∈ (Matching.ofArrivals xs ys).right) : b ∉ xs := fun inXs =>
  (List.nodup_append.mp matched.distinct).2.2 b inXs b (mem_right waits) rfl

/-- A waiting connection points at itself, so it is in no pair. -/
private theorem Matched.pair_ne_of_waits {b : ℕ} {pair : ℕ × ℕ}
    (matched : Matched before isOut w v xs ys s) (waits : b ∈ (Matching.ofArrivals xs ys).right)
    (member : pair ∈ (Matching.ofArrivals xs ys).pairs) :
    pair.1 ≠ b ∧ pair.2 ≠ b := by
  have first : pair.1 ≠ b := ne_of_mem_of_not_mem (mem_pair member).1 (matched.notMem_of_waits waits)
  constructor
  · exact first
  · rintro rfl
    exact first (Option.some.inj
      ((matched.paired pair member).2.symm.trans (matched.backWaiting _ waits)))

private theorem Matched.nodup_right (matched : Matched before isOut w v xs ys s) :
    (Matching.ofArrivals xs ys).right.Nodup :=
  (List.nodup_append.mp matched.distinct).2.1.sublist (List.drop_sublist ..)

/-- The newcomer waits. -/
private theorem Matched.waits {fd : ℤ} {t : DataChannelServer}
    (matched : Matched before isOut w v xs ys s) (waits : Waits s w fd t)
    (ahead : (Matching.ofArrivals xs ys).right = []) :
    Matched before isOut w v (xs ++ [s.sockets.next]) ys t := by
  have next := Matching.ofArrivals_append_of_nil xs ys s.sockets.next ahead
  obtain ⟨old, accepted, backAccepted, allocated, distinct⟩ := matched.newcomer waits.accepts
  have ofW := waits.server
  have ofV := waits.servers v matched.apart.symm
  have kept : ∀ p ∈ xs ++ ys, t.socket p = s.socket p := fun p member => waits.sockets p (old p member)
  constructor
  case apart => exact matched.apart
  case removte =>
    rw [ofW]
    exact matched.removte
  case backRemovte =>
    rw [ofV]
    exact matched.backRemovte
  case type =>
    rw [ofW]
    exact matched.type
  case backType =>
    rw [ofV]
    exact matched.backType
  case accepted => exact accepted
  case backAccepted => exact backAccepted
  case free =>
    rw [ofW, next]
    exact congrArg (· ++ [s.sockets.next]) matched.free
  case backFree =>
    rw [ofV, next, matched.backFree, ahead]
  case allocated => exact allocated
  case distinct => exact distinct
  case isOpen =>
    apply matched.isOpen_accepts waits.accepts
    · rw [waits.socket]
    · intro p member
      rw [kept p member]
  case waiting =>
    intro p member
    rw [next, List.mem_append, List.mem_singleton] at member
    rcases member with waiting | rfl
    · rw [kept p (List.mem_append_left _ (mem_left waiting))]
      exact matched.waiting p waiting
    · rw [waits.socket]
  case backWaiting =>
    rw [next]
    intro p member
    exact nomatch member
  case paired =>
    rw [next]
    intro pair member
    obtain ⟨left, right⟩ := mem_pair member
    rw [kept _ (List.mem_append_left _ left), kept _ (List.mem_append_right _ right)]
    exact matched.paired pair member
  case eool =>
    rw [next, waits.eool]
    exact matched.eool

section Newcomer

variable {fd : ℤ} {t : DataChannelServer} {b p : ℕ} {rest : List ℕ}

/-- Of the older connections only the front of the other queue changes. -/
private theorem Matched.kept_pairs (matched : Matched before isOut w v xs ys s) (pairs : Pairs s w b fd t)
    (member : p ∈ xs ++ ys) (apart : p ≠ b) : t.socket p = s.socket p :=
  pairs.sockets p (Nat.ne_of_lt (matched.allocated p member)) apart

private theorem Matched.isOpen_pairs (matched : Matched before isOut w v xs ys s)
    (pairs : Pairs s w b fd t) :
    ∀ p ∈ xs ++ [s.sockets.next] ++ ys, t.kernel.files (t.socket p).fd ≠ none := by
  apply matched.isOpen_accepts pairs.accepts
  · rw [pairs.socket]
  · intro p member
    by_cases isB : p = b
    · rw [isB, pairs.peer]
    · rw [matched.kept_pairs pairs member isB]

private theorem Matched.waiting_pairs (matched : Matched before isOut w v xs ys s)
    (pairs : Pairs s w b fd t) (waits : b ∈ (Matching.ofArrivals xs ys).right)
    (member : p ∈ (Matching.ofArrivals xs ys).left) :
    (t.socket p).data.ptr = some p := by
  have inXs := mem_left member
  have isNotB : p ≠ b := ne_of_mem_of_not_mem inXs (matched.notMem_of_waits waits)
  rw [matched.kept_pairs pairs (List.mem_append_left _ inXs) isNotB]
  exact matched.waiting p member

private theorem Matched.backWaiting_pairs (matched : Matched before isOut w v xs ys s)
    (pairs : Pairs s w b fd t) (front : (Matching.ofArrivals xs ys).right = b :: rest)
    (member : p ∈ rest) : (t.socket p).data.ptr = some p := by
  have inRight : p ∈ (Matching.ofArrivals xs ys).right := front ▸ List.mem_cons_of_mem _ member
  have isNotB : p ≠ b := by
    rintro rfl
    have queue := matched.nodup_right
    rw [front] at queue
    exact (List.nodup_cons.mp queue).1 member
  rw [matched.kept_pairs pairs (List.mem_append_right _ (mem_right inRight)) isNotB]
  exact matched.backWaiting p inRight

private theorem Matched.paired_pairs (matched : Matched before isOut w v xs ys s)
    (pairs : Pairs s w b fd t) (waits : b ∈ (Matching.ofArrivals xs ys).right) {pair : ℕ × ℕ}
    (member : pair ∈ (Matching.ofArrivals xs ys).pairs) :
    (t.socket pair.1).data.ptr = some pair.2 ∧ (t.socket pair.2).data.ptr = some pair.1 := by
  obtain ⟨left, right⟩ := mem_pair member
  obtain ⟨first, second⟩ := matched.pair_ne_of_waits waits member
  rw [matched.kept_pairs pairs (List.mem_append_left _ left) first,
    matched.kept_pairs pairs (List.mem_append_right _ right) second]
  exact matched.paired pair member

/-- The in side of the new pair is added first, whichever side has come last. -/
private theorem Matched.eool_pairs (matched : Matched before isOut w v xs ys s)
    (pairs : Pairs s w b fd t) :
    t.trace.eool = before ++ ((Matching.ofArrivals xs ys).pairs ++ [(s.sockets.next, b)]).flatMap
      (eoolCalls isOut) := by
  rw [pairs.eool, matched.eool]
  have outSide := matched.type
  cases isOut with
  | true => simp [eoolCalls, outSide.mpr rfl, List.flatMap_append]
  | false =>
    have notOut : ¬ (s.server w).type = 1 := fun isOut => nomatch outSide.mp isOut
    simp [eoolCalls, notOut, List.flatMap_append]

/-- The newcomer is paired with the front of the other queue. -/
private theorem Matched.pairs (matched : Matched before isOut w v xs ys s) (pairs : Pairs s w b fd t)
    (front : (Matching.ofArrivals xs ys).right = b :: rest) :
    Matched before isOut w v (xs ++ [s.sockets.next]) ys t := by
  have next := Matching.ofArrivals_append_of_cons xs ys s.sockets.next front
  obtain ⟨old, accepted, backAccepted, allocated, distinct⟩ := matched.newcomer pairs.accepts
  have ofW := pairs.server
  have ofV := pairs.removte
  rw [matched.removte] at ofV
  have waits : b ∈ (Matching.ofArrivals xs ys).right := front ▸ List.mem_cons_self ..
  constructor
  case apart => exact matched.apart
  case removte =>
    rw [ofW]
    exact matched.removte
  case backRemovte =>
    rw [ofV]
    exact matched.backRemovte
  case type =>
    rw [ofW]
    exact matched.type
  case backType =>
    rw [ofV]
    exact matched.backType
  case accepted => exact accepted
  case backAccepted => exact backAccepted
  case free =>
    rw [ofW, next]
    exact matched.free
  case backFree =>
    rw [ofV, next]
    dsimp only
    rw [matched.backFree, front, List.tail_cons]
  case allocated => exact allocated
  case distinct => exact distinct
  case isOpen => exact matched.isOpen_pairs pairs
  case waiting =>
    rw [next]
    exact fun p member => matched.waiting_pairs pairs waits member
  case backWaiting =>
    rw [next]
    exact fun p member => matched.backWaiting_pairs pairs front member
  case paired =>
    rw [next]
    intro pair member
    rcases List.mem_append.mp member with old | new
    · exact matched.paired_pairs pairs waits old
    · obtain rfl := List.mem_singleton.mp new
      rw [pairs.socket, pairs.peer]
      exact ⟨rfl, rfl⟩
  case eool =>
    rw [next]
    exact matched.eool_pairs pairs

end Newcomer

/-- One round of `run_accept` for the first listener. -/
private theorem Matched.runAccept (matched : Matched before isOut w v xs ys s) (fd : ℤ) :
    ∃ xs', Matched before isOut w v xs' ys (s.runAccept w fd) := by
  rcases s.runAccept_eq w fd with same | ⟨available, _, same⟩
  · rw [same]
    exact ⟨xs, matched.refused w⟩
  · rw [same]
    refine ⟨xs ++ [s.sockets.next], ?_⟩
    have queue : (s.server (s.server w).removte).freeSocket = (Matching.ofArrivals xs ys).right := by
      rw [matched.removte, matched.backFree]
    cases front : (Matching.ofArrivals xs ys).right with
    | nil => exact matched.waits (runAccept_waits available (queue.trans front)) front
    | cons b rest =>
      have inYs : b ∈ xs ++ ys := List.mem_append_right _ (mem_right (front ▸ List.mem_cons_self ..))
      exact matched.pairs (runAccept_pairs available (by rw [matched.removte]; exact matched.apart.symm)
        (matched.allocated b inYs) (matched.isOpen b inYs) (queue.trans front)) front

/-- Any sequence of rounds keeps the channel in the state that its arrivals determine. -/
theorem Matched.acceptAll (matched : Matched before true o i xs ys s) (arrivals : List (Side × ℤ)) :
    ∃ xs' ys', Matched before true o i xs' ys' (s.acceptAll o i arrivals) := by
  induction arrivals generalizing s xs ys with
  | nil => exact ⟨xs, ys, matched⟩
  | cons arrival rest ih =>
    rcases arrival with ⟨side, fd⟩
    cases side with
    | out =>
      obtain ⟨xs', step⟩ := matched.runAccept fd
      exact ih step
    | in_ =>
      obtain ⟨ys', step⟩ := matched.swap.runAccept fd
      exact ih step.swap

/-- The connections that the calls of `add_eool` for a list of pairs are about. -/
private theorem mem_calls_iff (isOut : Bool) (pairs : List (ℕ × ℕ)) (call : EoolCall) :
    call ∈ pairs.flatMap (eoolCalls isOut) ↔ ∃ pair ∈ pairs,
      call = ⟨pair.1, some pair.2, some pair.1⟩ ∨ call = ⟨pair.2, some pair.1, some pair.2⟩ := by
  rw [List.mem_flatMap]
  refine exists_congr fun pair => and_congr_right fun _ => ?_
  cases isOut <;> simp [eoolCalls, or_comm]

/-- There is one call for each connection of each pair. -/
private theorem calls_perm (isOut : Bool) (pairs : List (ℕ × ℕ)) :
    ((pairs.flatMap (eoolCalls isOut)).map EoolCall.info).Perm
      (pairs.map Prod.fst ++ pairs.map Prod.snd) := by
  induction pairs with
  | nil => exact .nil
  | cons pair rest ih =>
    have both : ((eoolCalls isOut pair).map EoolCall.info).Perm [pair.1, pair.2] := by
      cases isOut with
      | true => exact .swap ..
      | false => exact .refl _
    rw [List.flatMap_cons, List.map_append, List.map_cons, List.map_cons, List.cons_append]
    refine (both.append ih).trans ?_
    change (pair.1 :: pair.2 :: (rest.map Prod.fst ++ rest.map Prod.snd)).Perm _
    exact .cons _ List.perm_middle.symm

/-- Connections accepted in any order and number on the two listeners of a channel: at most one side
waits; the `k`-th of one side is paired with the `k`-th of the other, each pointing at the other, and
whoever has no partner yet points at itself and waits; `add_eool` is called once for each connection
of a pair, when both point at each other, and for no other connection. -/
theorem accepted_connections_paired (fresh : FreshChannel s o i) (arrivals : List (Side × ℤ)) :
    let t := s.acceptAll o i arrivals
    let xs := t.trace.accepted o
    let ys := t.trace.accepted i
    (xs ++ ys).Nodup ∧
    ((t.server o).freeSocket = [] ∨ (t.server i).freeSocket = []) ∧
    (∀ (k x y : ℕ), xs[k]? = some x → ys[k]? = some y →
      (t.socket x).data.ptr = some y ∧ (t.socket y).data.ptr = some x) ∧
    (∀ (k x : ℕ), xs[k]? = some x → ys.length ≤ k →
      (t.socket x).data.ptr = some x ∧ x ∈ (t.server o).freeSocket) ∧
    (∀ (k y : ℕ), ys[k]? = some y → xs.length ≤ k →
      (t.socket y).data.ptr = some y ∧ y ∈ (t.server i).freeSocket) ∧
    ∃ calls, t.trace.eool = s.trace.eool ++ calls ∧ (calls.map EoolCall.info).Nodup ∧
      ∀ call, call ∈ calls ↔ ∃ k x y : ℕ, xs[k]? = some x ∧ ys[k]? = some y ∧
        (call = ⟨x, some y, some x⟩ ∨ call = ⟨y, some x, some y⟩) := by
  obtain ⟨xs, ys, matched⟩ := fresh.matched.acceptAll arrivals
  dsimp only
  rw [matched.accepted, matched.backAccepted, matched.free, matched.backFree]
  refine ⟨matched.distinct, Matching.left_or_right_nil xs ys, ?_, ?_, ?_, _, matched.eool, ?_, ?_⟩
  · intro k x y isX isY
    exact matched.paired (x, y) ((Matching.mem_pairs_iff xs ys x y).mpr ⟨k, isX, isY⟩)
  · intro k x isX ahead
    have waits := Matching.mem_left_of_ahead isX ahead
    exact ⟨matched.waiting x waits, waits⟩
  · intro k y isY ahead
    have waits := Matching.mem_right_of_ahead isY ahead
    exact ⟨matched.backWaiting y waits, waits⟩
  · rw [(calls_perm ..).nodup_iff]
    exact matched.distinct.sublist
      ((Matching.pairs_fst_sublist xs ys).append (Matching.pairs_snd_sublist xs ys))
  · intro call
    rw [mem_calls_iff]
    constructor
    · rintro ⟨⟨x, y⟩, member, isCall⟩
      obtain ⟨k, isX, isY⟩ := (Matching.mem_pairs_iff xs ys x y).mp member
      exact ⟨k, x, y, isX, isY, isCall⟩
    · rintro ⟨k, x, y, isX, isY, isCall⟩
      exact ⟨(x, y), (Matching.mem_pairs_iff xs ys x y).mpr ⟨k, isX, isY⟩, isCall⟩

/-- What a successful `create_channel_server` leaves is such a channel. -/
theorem createChannelServer_fresh (s : DataChannelServer) (channelInfo : VpnChannelInfo)
    (calls : ChannelCalls) (unused : ∀ w, s.servers.next ≤ w → s.trace.accepted w = [])
    (success : (s.createChannelServer channelInfo calls).1 = true) :
    FreshChannel (s.createChannelServer channelInfo calls).2 s.servers.next (s.servers.next + 1) := by
  rcases s.createChannelServer_cases channelInfo calls with ⟨k, _, created⟩ | ⟨k, h, _, _, _, created⟩ |
    ⟨k, h, _, _, _, reached, _, created⟩
  · rw [created] at success
    contradiction
  · rw [created] at success
    contradiction
  · rw [created]
    obtain ⟨_, out⟩ := reached.out
    obtain ⟨_, in_⟩ := reached.in_
    have fresh : FreshChannel (s.withSystem k h) s.servers.next (s.servers.next + 1) := by
      refine ⟨by omega, ?_, ?_, ?_, ?_, ?_, ?_, unused _ le_rfl, unused _ (Nat.le_succ _)⟩
      all_goals simp only [server, servers_withSystem, out, in_, outInfo, inInfo]
      exact Int.zero_ne_one
    rw [insertChannel]
    split
    · exact { fresh with }
    · exact fresh

/-- Channel one of client one on a server that has just been started. -/
def servingOne : DataChannelServer :=
  (freshServer.createChannelServer ⟨1, 1, {}⟩ ⟨⟨5, true, true, true⟩, ⟨6, true, true, true⟩⟩).2

/-- Three connections: the first of each side are paired, the second of the out side waits. -/
theorem three_connections_paired :
    let t := servingOne.acceptAll 1 2 [(.out, 7), (.out, 8), (.in_, 9)]
    (t.socket 1).data.ptr = some 3 ∧ (t.socket 3).data.ptr = some 1 ∧ (t.socket 2).data.ptr = some 2 := by
  have facts := accepted_connections_paired
    (createChannelServer_fresh freshServer ⟨1, 1, {}⟩ ⟨⟨5, true, true, true⟩, ⟨6, true, true, true⟩⟩
      (fun _ _ => rfl) (by decide)) [(.out, 7), (.out, 8), (.in_, 9)]
  obtain ⟨_, _, pairs, waits, _⟩ := facts
  obtain ⟨forth, back⟩ := pairs 0 1 3 (by decide) (by decide)
  exact ⟨forth, back, (waits 1 2 (by decide) (by decide)).1⟩

end DataChannelServer

end LinuxZero.Vpn
