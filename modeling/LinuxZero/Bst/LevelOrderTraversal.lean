import LinuxZero.Bst.Layout
import LinuxZero.Lib.Heap
import LinuxZero.Lib.LevelOrder
import Mathlib.Order.Nat

/-! # Printing a tree level by level

`level_order_traversal` keeps the nodes to come in a linked queue whose last cell is always empty: a child is
put into the empty cell, and a new empty one goes behind it. Cells are allocated one after the other, and the
queue is at all times the cells from the first one that is not freed yet; what they hold is a queue of subtrees,
so the output is the level order of the tree.
-/

namespace LinuxZero.Bst

open LevelOrder OrderedTree

/-- `queue_node`, for both traversals. -/
structure QueueNode where
  data : ℕ
  next : ℕ
deriving DecidableEq, Repr

/-- The local queue, the cells in memory and those that have been freed, and what has been printed. -/
structure Traversal where
  nodes : LinuxZero.Heap QueueNode
  front : ℕ
  rear : ℕ
  freed : List ℕ
  out : List UInt8

/-- `malloc` returns memory with any content. -/
abbrev Raw := ℕ → QueueNode

namespace Traversal

def update (s : Traversal) (p : ℕ) (f : QueueNode → QueueNode) : Traversal :=
  { s with nodes := s.nodes.modify p f }

def malloc (raw : Raw) (s : Traversal) : Traversal := { s with nodes := s.nodes.new (raw s.nodes.next) }

/-- `queue.rear->next = malloc(..)`, then `queue.rear = queue.rear->next`. -/
def extend (raw : Raw) (s : Traversal) : Traversal :=
  let t := (s.malloc raw).update s.rear fun n => { n with next := s.nodes.next }
  { t with nodes := t.nodes.use t.rear, rear := (t.nodes.content t.rear).next }

/-- The child goes into the empty cell. -/
def append (raw : Raw) (s : Traversal) (child : ℕ) : Traversal :=
  let t := (s.update s.rear fun n => { n with data := child }).extend raw
  (t.update t.rear fun n => { n with next := 0 }).update t.rear fun n => { n with data := 0 }

/-- The child goes into the new cell. -/
def append1 (raw : Raw) (s : Traversal) (child : ℕ) : Traversal :=
  let t := s.extend raw
  (t.update t.rear fun n => { n with data := child }).update t.rear fun n => { n with next := 0 }

/-- The first cell leaves the queue; it is still in memory. -/
def pop (s : Traversal) : Traversal :=
  { s with nodes := s.nodes.use s.front, front := (s.nodes.content s.front).next }

def print (s : Traversal) (data : UInt8) : Traversal := { s with out := s.out ++ [data] }

def free (s : Traversal) (p : ℕ) : Traversal :=
  { s with nodes := s.nodes.delete p, freed := s.freed ++ [p] }

/-- The child is put into the queue if there is one. -/
def enqueue (put : Traversal → ℕ → Traversal) (s : Traversal) (child : ℕ) : Traversal :=
  if child ≠ 0 then put s child else s

/-- The loop of both traversals; the result is none after an access to a tree node that is not in memory. -/
def body (put : Traversal → ℕ → Traversal) (M : Heap) : Loop Traversal (Option Traversal) := fun s =>
  if s.front ≠ 0 then
    let node := (s.nodes.content s.front).data
    if node ≠ 0 then
      match M node with
      | none => .inr none
      | some n => .inl ((((s.pop.print n.data).enqueue put n.l).enqueue put n.r).free s.front)
    else .inl (s.pop.free s.front)
  else .inr (some s)

/-- Nothing is allocated, and the queue has no cell. -/
def empty : Traversal := ⟨.empty ⟨0, 0⟩, 0, 0, [], []⟩

/-- The two cells that the queue starts with. -/
def start (raw : Raw) (root : ℕ) : Traversal :=
  let s := { empty with front := empty.nodes.next }.malloc raw
  let s := { s with rear := s.nodes.next }.malloc raw
  let s := (s.update s.front fun n => { n with data := root }).update s.front fun n =>
    { n with next := s.rear }
  (s.update s.rear fun n => { n with data := 0 }).update s.rear fun n => { n with next := 0 }

/-- The single cell that the other queue starts with. -/
def start1 (raw : Raw) (root : ℕ) : Traversal :=
  let s := { empty with front := empty.nodes.next }.malloc raw
  let s := (s.update s.front fun n => { n with data := root }).update s.front fun n =>
    { n with next := 0 }
  { s with rear := s.front }

variable {raw : Raw} {put : Traversal → ℕ → Traversal} {M : Heap} {s : Traversal} {n : TreeNode}
  {p next : ℕ}

variable (raw) in
/-- A child changes the end of the queue only. -/
theorem enqueue_append (child : ℕ) : (s.enqueue (append raw) child).front = s.front ∧
    (s.enqueue (append raw) child).out = s.out := by
  rw [enqueue]
  split
  · exact ⟨rfl, rfl⟩
  · exact ⟨rfl, rfl⟩

theorem body_done (done : s.front = 0) : body put M s = .inr (some s) := if_neg (not_not.mpr done)

theorem body_empty (more : s.front ≠ 0) (held : s.nodes.content s.front = ⟨0, next⟩) :
    body put M s = .inl (s.pop.free s.front) := by
  rw [body, if_pos more, held]
  exact if_neg (not_not.mpr rfl)

theorem body_node (more : s.front ≠ 0) (held : s.nodes.content s.front = ⟨p, next⟩) (real : p ≠ 0)
    (present : M p = some n) :
    body put M s = .inl ((((s.pop.print n.data).enqueue put n.l).enqueue put n.r).free s.front) := by
  rw [body, if_pos more, held]
  refine (if_pos real).trans ?_
  rw [present]

end Traversal

def level_order_traversal (raw : Raw) (M : Heap) (root : ℕ) (fuel : ℕ) : Option (Option Traversal) :=
  (Traversal.body (Traversal.append raw) M).run fuel (Traversal.start raw root)

def level_order_traversal1 (raw : Raw) (M : Heap) (root : ℕ) (fuel : ℕ) : Option (Option Traversal) :=
  if root = 0 then some (some .empty)
  else (Traversal.body (Traversal.append1 raw) M).run fuel (Traversal.start1 raw root)

/-- The queue holds these subtrees, and behind them the empty cell. Cells are freed up to the oldest one. -/
structure Queued (s : Traversal) (oldest : ℕ) (ts : List ItemTree) : Prop where
  positive : 0 < oldest
  old : oldest ≤ s.front
  rear : s.rear = s.front + ts.length
  next : s.nodes.next = s.rear + 1
  live : ∀ p, s.nodes.live p = true ↔ oldest ≤ p ∧ p ≤ s.rear
  fault : s.nodes.fault = false
  freed : s.freed = List.range' 1 (oldest - 1)
  held : ∀ i t, ts[i]? = some t → s.nodes.content (s.front + i) = ⟨ptrOf t, s.front + i + 1⟩
  last : s.nodes.content s.rear = ⟨0, 0⟩

/-- The children of a tree in memory are in memory. -/
theorem Linked.child {M : Heap} {t kid : ItemTree} (linked : Linked M t)
    (member : kid ∈ children t) : Linked M kid := by
  cases t with
  | nil => exact absurd member List.not_mem_nil
  | node item left right =>
    obtain ⟨_, _, lower, upper⟩ := linked
    rcases mem_children member with rfl | rfl
    · exact lower
    · exact upper

namespace Queued

variable {raw : Raw} {s : Traversal} {oldest : ℕ} {ts : List ItemTree} {t : ItemTree}

theorem start (raw : Raw) (t : ItemTree) : Queued (.start raw (ptrOf t)) 1 [t] where
  positive := Nat.one_pos
  old := le_rfl
  rear := rfl
  next := rfl
  live p := by
    change Function.update (Function.update (fun _ => false) 1 true) 2 true p = true ↔ 1 ≤ p ∧ p ≤ 2
    rw [Function.update_apply, Function.update_apply]
    grind
  fault := rfl
  freed := rfl
  held i u present := by
    obtain ⟨rfl, rfl⟩ : i = 0 ∧ u = t := by grind
    rfl
  last := rfl

variable (raw) in
/-- A child is put behind the other subtrees. -/
theorem append (queued : Queued s oldest ts) (t : ItemTree) :
    Queued (s.append raw (ptrOf t)) oldest (ts ++ [t]) := by
  have rearAlive : s.nodes.live s.rear = true :=
    (queued.live _).mpr ⟨queued.old.trans (by rw [queued.rear]; omega), le_rfl⟩
  have apart : s.rear ≠ s.nodes.next := Heap.ne_next rearAlive
  have rear : (s.append raw (ptrOf t)).rear = s.rear + 1 := by
    rw [← queued.next]
    simp [Traversal.append, Traversal.extend, Traversal.update, Traversal.malloc]
  have content : (s.append raw (ptrOf t)).nodes.content =
      Function.update (Function.update s.nodes.content s.rear ⟨ptrOf t, s.rear + 1⟩) (s.rear + 1)
        ⟨0, 0⟩ := by
    rw [← queued.next]
    funext p
    simp [Traversal.append, Traversal.extend, Traversal.update, Traversal.malloc, Function.update_apply]
    grind
  exact {
    positive := queued.positive
    old := queued.old
    rear := by
      rw [rear, queued.rear, List.length_append]
      rfl
    next := by
      rw [rear, ← queued.next]
      rfl
    live := fun p => by
      change Function.update s.nodes.live s.nodes.next true p = true ↔ _
      have before := queued.live p
      have old := queued.old
      have last := queued.rear
      rw [rear, queued.next, Function.update_apply]
      grind
    fault := by
      simp [Traversal.append, Traversal.extend, Traversal.update, Traversal.malloc, queued.fault,
        rearAlive, apart]
    freed := queued.freed
    held := fun i u present => by
      change (s.append raw (ptrOf t)).nodes.content (s.front + i) = ⟨ptrOf u, s.front + i + 1⟩
      rw [content]
      have last := queued.rear
      rcases lt_or_ge i ts.length with inside | beyond
      · rw [List.getElem?_append_left inside] at present
        rw [Function.update_of_ne (by omega), Function.update_of_ne (by omega)]
        exact queued.held i u present
      · obtain ⟨rfl, rfl⟩ : i = ts.length ∧ u = t := by grind
        rw [← last, Function.update_of_ne (by omega), Function.update_self]
    last := by rw [content, rear, Function.update_self] }

variable (raw) in
theorem enqueue {M : Heap} (queued : Queued s oldest ts) (linked : Linked M t) :
    Queued (s.enqueue (Traversal.append raw) (ptrOf t)) oldest (ts ++ present t) := by
  rw [Traversal.enqueue]
  cases t with
  | nil => rwa [ptrOf_nil, if_neg (not_not.mpr rfl), present, List.append_nil]
  | node item left right =>
    rw [ptrOf_node, if_pos linked.1]
    exact queued.append raw (.node item left right)

theorem head (queued : Queued s oldest (t :: ts)) : s.nodes.content s.front = ⟨ptrOf t, s.front + 1⟩ :=
  queued.held 0 t rfl

theorem pop (queued : Queued s s.front (t :: ts)) : Queued s.pop s.front ts ∧
    s.pop.front = s.front + 1 := by
  have front : s.pop.front = s.front + 1 := by rw [Traversal.pop, queued.head]
  have alive : s.nodes.live s.front = true := (queued.live _).mpr ⟨le_rfl, by rw [queued.rear]; omega⟩
  refine ⟨?_, front⟩
  exact {
    positive := queued.positive
    old := front ▸ Nat.le_succ _
    rear := by
      change s.rear = s.pop.front + ts.length
      rw [front, queued.rear, List.length_cons]
      omega
    next := queued.next
    live := queued.live
    fault := by
      change (s.nodes.fault || !s.nodes.live s.front) = false
      rw [queued.fault, alive]
      rfl
    freed := queued.freed
    held := fun i u present => by
      rw [front, Nat.add_assoc, Nat.add_comm 1]
      exact queued.held (i + 1) u present
    last := queued.last }

theorem print (queued : Queued s oldest ts) (data : UInt8) : Queued (s.print data) oldest ts :=
  { queued with }

theorem free (queued : Queued s oldest ts) (older : oldest < s.front) :
    Queued (s.free oldest) (oldest + 1) ts where
  positive := Nat.succ_pos _
  old := older
  rear := queued.rear
  next := queued.next
  live p := by
    have before := queued.live p
    change (s.nodes.delete oldest).live p = true ↔ oldest + 1 ≤ p ∧ p ≤ s.rear
    rw [Heap.live_delete_iff, before]
    omega
  fault := by
    have alive : s.nodes.live oldest = true := (queued.live _).mpr ⟨le_rfl, by rw [queued.rear]; omega⟩
    change (s.nodes.delete oldest).fault = false
    rw [Heap.fault_delete, queued.fault, alive]
    rfl
  freed := by
    have positive := queued.positive
    obtain ⟨before, rfl⟩ : ∃ before, oldest = before + 1 := ⟨oldest - 1, by omega⟩
    change s.freed ++ [before + 1] = List.range' 1 (before + 1)
    rw [queued.freed, List.range'_concat, Nat.one_mul, Nat.add_comm 1]
    rfl
  held := queued.held
  last := queued.last

variable (raw) in
/-- The last cell is taken and freed, and the queue has ended. -/
theorem finish (queued : Queued s s.front []) (M : Heap) :
    ∃ t, Traversal.body (Traversal.append raw) M s = .inl t ∧
    t.front = 0 ∧ t.out = s.out ∧ t.nodes.fault = false ∧ (∀ p, t.nodes.live p = false) ∧
    t.freed = List.range' 1 (t.nodes.next - 1) := by
  have positive := queued.positive
  have rear : s.rear = s.front := queued.rear
  have last := queued.last
  have alive : s.nodes.live s.front = true := (queued.live _).mpr ⟨le_rfl, rear.ge⟩
  have next := queued.next
  rw [rear] at last next
  refine ⟨({ s with nodes := s.nodes.use s.front, front := 0 } : Traversal).free s.front, ?_, rfl,
    rfl, ?_, ?_, ?_⟩
  · rw [Traversal.body_empty (Nat.ne_of_gt positive) last, Traversal.pop, last]
  · change (s.nodes.fault || !s.nodes.live s.front || !s.nodes.live s.front) = false
    rw [queued.fault, alive]
    rfl
  · intro p
    rw [← Bool.not_eq_true]
    change ¬ ((s.nodes.use s.front).delete s.front).live p = true
    rw [Heap.live_delete_iff, Heap.live_use, queued.live, rear]
    omega
  · change s.freed ++ [s.front] = List.range' 1 (s.nodes.next - 1)
    rw [next, queued.freed, Nat.add_sub_cancel]
    obtain ⟨before, same⟩ : ∃ before, s.front = before + 1 := ⟨s.front - 1, by omega⟩
    rw [same, List.range'_concat, Nat.one_mul, Nat.add_comm 1]
    rfl

variable (raw) in
/-- One round takes the first subtree, prints its root and puts its children behind the others. -/
theorem round {M : Heap} {item : Item} {left right : ItemTree}
    (queued : Queued s s.front (.node item left right :: ts))
    (linked : Linked M (.node item left right)) :
    ∃ u, Traversal.body (Traversal.append raw) M s = .inl u ∧
    Queued u u.front (ts ++ children (.node item left right)) ∧ u.out = s.out ++ [item.data] := by
  obtain ⟨real, ⟨parent, held⟩, lower, upper⟩ := linked
  obtain ⟨popped, front⟩ := queued.pop
  have both := ((popped.print item.data).enqueue raw lower).enqueue raw upper
  rw [List.append_assoc] at both
  obtain ⟨frontRight, outRight⟩ := Traversal.enqueue_append raw
    (s := (s.pop.print item.data).enqueue (.append raw) (ptrOf left)) (ptrOf right)
  obtain ⟨frontLeft, outLeft⟩ := Traversal.enqueue_append raw (s := s.pop.print item.data) (ptrOf left)
  have next := (frontRight.trans frontLeft).trans front
  refine ⟨_, Traversal.body_node (Nat.ne_of_gt queued.positive) queued.head real held, ?_,
    outRight.trans outLeft⟩
  have freed := both.free (by rw [next]; exact Nat.lt_succ_self _)
  rwa [← next] at freed

variable (raw) in
/-- A queue of subtrees is printed in the order in which it comes by their nodes. -/
theorem returns {M : Heap} (queued : Queued s s.front ts) (linked : ∀ t ∈ ts, Linked M t) :
    ∃ u, Loop.Returns (Traversal.body (Traversal.append raw) M) s (some u) ∧
    u.out = s.out ++ (visit ts).map Item.data ∧
    u.nodes.fault = false ∧ (∀ p, u.nodes.live p = false) ∧
    u.freed = List.range' 1 (u.nodes.next - 1) := by
  induction ts using visit.induct generalizing s with
  | case1 =>
    obtain ⟨u, round, done, out, clean⟩ := queued.finish raw M
    refine ⟨u, (Loop.returns_iff_of_round round _).mpr
      (Loop.returns_of_exit (Traversal.body_done done)), ?_, clean⟩
    rw [visit, List.map_nil, List.append_nil, out]
  | case2 queue ih =>
    obtain ⟨popped, front⟩ := queued.pop
    have round : Traversal.body (Traversal.append raw) M s = .inl (s.pop.free s.front) :=
      Traversal.body_empty (Nat.ne_of_gt queued.positive) queued.head
    have next := popped.free (front ▸ Nat.lt_succ_self _)
    rw [← front] at next
    obtain ⟨u, returned, out, clean⟩ := ih next fun t member => linked t (List.mem_cons_of_mem _ member)
    refine ⟨u, (Loop.returns_iff_of_round round _).mpr returned, ?_, clean⟩
    rw [visit]
    exact out
  | case3 item left right queue ih =>
    obtain ⟨v, round, next, printed⟩ := queued.round raw (linked _ List.mem_cons_self)
    have below : ∀ t ∈ queue ++ children (.node item left right), Linked M t := by
      intro t member
      rcases List.mem_append.mp member with member | member
      · exact linked t (List.mem_cons_of_mem _ member)
      · exact (linked _ List.mem_cons_self).child member
    obtain ⟨u, returned, out, clean⟩ := ih next below
    refine ⟨u, (Loop.returns_iff_of_round round _).mpr returned, ?_, clean⟩
    rw [out, printed, visit, List.map_cons, List.append_assoc]
    rfl

end Queued

/-- Every finite tree is printed in level order, and the queue is given back cell by cell. -/
theorem level_order_traversal_prints (raw : Raw) {M : Heap} {t : ItemTree} (linked : Linked M t) :
    ∃ s, Computes (level_order_traversal raw M (ptrOf t)) (some s) ∧
      s.out = (levelOrder t).map Item.data ∧ (levelOrder t).Perm (inorder t) ∧
      s.nodes.fault = false ∧ (∀ p, s.nodes.live p = false) ∧
      s.freed = List.range' 1 (s.nodes.next - 1) := by
  have start := Queued.start raw t
  obtain ⟨s, returned, out, clean⟩ := start.returns raw fun u member =>
    List.mem_singleton.mp member ▸ linked
  refine ⟨s, Computes.of_returns returned, ?_, levelOrder_perm t, clean⟩
  rw [out, visit_root]
  rfl

/-- Three nodes, of which the second is the left child of the first and the parent of the third. -/
private def three : Heap := fun p =>
  if p = 1 then some ⟨5, 97, 0, 2, 0⟩
  else if p = 2 then some ⟨3, 98, 1, 0, 3⟩
  else if p = 3 then some ⟨4, 99, 2, 0, 0⟩
  else none

theorem level_order_traversal_prints_three :
    ∃ s, Computes (level_order_traversal (fun _ => ⟨7, 7⟩) three 1) (some s) ∧
    s.out = [97, 98, 99] ∧ s.freed = [1, 2, 3, 4] := by
  let t : ItemTree := .node ⟨1, 5, 97⟩ (.node ⟨2, 3, 98⟩ .nil (.node ⟨3, 4, 99⟩ .nil .nil)) .nil
  have linked : Linked three t := by
    refine ⟨by decide, ⟨0, rfl⟩, ⟨by decide, ⟨1, rfl⟩, trivial, by decide, ⟨2, rfl⟩, trivial, trivial⟩,
      trivial⟩
  obtain ⟨s, computes, out, _, _, live, freed⟩ := level_order_traversal_prints (fun _ => ⟨7, 7⟩) linked
  refine ⟨s, computes, out.trans (by decide), ?_⟩
  have run : Computes (level_order_traversal (fun _ => ⟨7, 7⟩) three 1) _ :=
    ⟨5, fun fuel bound => by
      obtain ⟨fuel, rfl⟩ := Nat.exists_eq_add_of_le' bound
      rfl⟩
  obtain rfl := Option.some.inj (computes.unique run)
  rfl

/-- The other queue has lost its first cell; these many cells are behind the lost one. -/
structure Lost (s : Traversal) (count : ℕ) : Prop where
  front : s.front = 0
  rear : s.rear = 1 + count
  next : s.nodes.next = 2 + count
  live : ∀ p, s.nodes.live p = true ↔ 1 ≤ p ∧ p < 2 + count
  fault : s.nodes.fault = false

namespace Lost

variable {raw : Raw} {s : Traversal} {count : ℕ} {t : ItemTree}

theorem append1 (lost : Lost s count) (child : ℕ) : Lost (s.append1 raw child) (count + 1) := by
  have rearAlive : s.nodes.live s.rear = true := (lost.live _).mpr (by rw [lost.rear]; omega)
  have apart : s.rear ≠ s.nodes.next := Heap.ne_next rearAlive
  exact {
    front := lost.front
    rear := by
      have next := lost.next
      simp [Traversal.append1, Traversal.extend, Traversal.update, Traversal.malloc]
      omega
    next := congrArg (· + 1) lost.next
    live := fun p => by
      change Function.update s.nodes.live s.nodes.next true p = true ↔ _
      have before := lost.live p
      have next := lost.next
      rw [Function.update_apply]
      grind
    fault := by
      simp [Traversal.append1, Traversal.extend, Traversal.update, Traversal.malloc, lost.fault,
        rearAlive, apart] }

variable (raw) in
theorem enqueue {M : Heap} (lost : Lost s count) (linked : Linked M t) :
    Lost (s.enqueue (Traversal.append1 raw) (ptrOf t)) (count + (present t).length) ∧
      (s.enqueue (Traversal.append1 raw) (ptrOf t)).out = s.out := by
  rw [Traversal.enqueue]
  cases t with
  | nil => exact ⟨lost, rfl⟩
  | node item left right =>
    rw [ptrOf_node, if_pos linked.1]
    exact ⟨lost.append1 item.ptr, rfl⟩

end Lost

/-- The other traversal ends after the root: the cell that the first child is put behind has been the last one
of the queue when it was taken. The cells of the children are never freed. -/
theorem level_order_traversal1_stops (raw : Raw) {M : Heap} {t : ItemTree} (linked : Linked M t) :
    ∃ s, Computes (level_order_traversal1 raw M (ptrOf t)) (some s) ∧ s.out = (level t 0).map Item.data ∧
      s.nodes.fault = false ∧ ∀ p, s.nodes.live p = true ↔ 2 ≤ p ∧ p < 2 + (children t).length := by
  cases t with
  | nil =>
    refine ⟨.empty, Computes.pure _, rfl, rfl, fun p => ?_⟩
    exact iff_of_false nofun fun ⟨least, below⟩ => absurd (least.trans_lt below) (lt_irrefl 2)
  | node item left right =>
    obtain ⟨real, ⟨parent, held⟩, lower, upper⟩ := linked
    let popped := (Traversal.start1 raw item.ptr).pop.print item.data
    have lost : Lost popped 0 := {
      front := rfl
      rear := rfl
      next := rfl
      live := fun p => by
        change Function.update (fun _ => false) 1 true p = true ↔ 1 ≤ p ∧ p < 2
        rw [Function.update_apply]
        grind
      fault := rfl }
    obtain ⟨lostLeft, outLeft⟩ := lost.enqueue raw lower
    obtain ⟨lostBoth, outRight⟩ := lostLeft.enqueue raw upper
    have round : Traversal.body (.append1 raw) M (.start1 raw item.ptr) = .inl _ :=
      Traversal.body_node (s := .start1 raw item.ptr) Nat.one_ne_zero rfl real held
    have returned := (Loop.returns_iff_of_round round _).mpr
      (Loop.returns_of_exit (Traversal.body_done lostBoth.front))
    refine ⟨_, Computes.congr (fun fuel => if_neg real) (Computes.of_returns returned),
      outRight.trans outLeft, ?_, fun p => ?_⟩
    · have alive := (lostBoth.live 1).mpr (by omega)
      exact (congrArg₂ (fun fault live => fault || !live) lostBoth.fault alive).trans rfl
    · change (Heap.delete _ 1).live p = true ↔ _
      rw [Heap.live_delete_iff, lostBoth.live, children, List.length_append]
      omega

end LinuxZero.Bst
