import LinuxZero.Lib.OrderedTree
import Mathlib.Algebra.BigOperators.Group.List.Basic
import Mathlib.Algebra.GroupWithZero.Nat

/-! # Level order

The nodes of a binary tree by their depth, and from left to right at each depth. A first-in-first-out queue of
subtrees, from which the first one is taken and behind which its children are put, comes by the nodes in this
order: at every time the queue holds what is left of one level, and behind it the part of the next level that
has been reached.
-/

namespace LinuxZero.LevelOrder

open OrderedTree (inorder)

variable {α : Type*}

/-- The nodes at the depth, from left to right. -/
def level : BinaryTree α → ℕ → List α
  | .nil, _ => []
  | .node a _ _, 0 => [a]
  | .node _ left right, depth + 1 => level left depth ++ level right depth

/-- One level after the other, from the root down. -/
def levelOrder (t : BinaryTree α) : List α := (List.range t.height).flatMap (level t)

/-- The tree if there is one. -/
def present : BinaryTree α → List (BinaryTree α)
  | .nil => []
  | .node a left right => [.node a left right]

def children : BinaryTree α → List (BinaryTree α)
  | .nil => []
  | .node _ left right => present left ++ present right

/-- What is still to be done for a tree in the queue. -/
def weight (t : BinaryTree α) : ℕ := t.numNodes + t.numLeaves

theorem weight_present_le (t : BinaryTree α) : ((present t).map weight).sum ≤ weight t := by
  cases t with
  | nil => exact Nat.zero_le _
  | node a left right =>
    have single : ((present (.node a left right)).map weight).sum = weight (.node a left right) := by
      rw [present, List.map_singleton, List.sum_singleton]
    exact Nat.le_of_eq single

/-- The nodes in the order in which the queue comes by them. -/
def visit : List (BinaryTree α) → List α
  | [] => []
  | .nil :: queue => visit queue
  | .node a left right :: queue => a :: visit (queue ++ children (.node a left right))
termination_by queue => (queue.map weight).sum
decreasing_by
  · simp only [List.map_cons, List.sum_cons, weight, BinaryTree.numNodes, BinaryTree.numLeaves]
    omega
  · have lower := weight_present_le left
    have upper := weight_present_le right
    simp only [List.map_append, List.sum_append, List.map_cons, List.sum_cons, children]
    simp only [weight, BinaryTree.numNodes, BinaryTree.numLeaves] at lower upper ⊢
    omega

variable {t : BinaryTree α} {ts rest kids : List (BinaryTree α)}

theorem flatMap_present {β : Type*} {f : BinaryTree α → List β} (skips : f .nil = []) (t : BinaryTree α) :
    (present t).flatMap f = f t := by
  cases t with
  | nil => exact skips.symm
  | node a left right => exact List.flatMap_singleton ..

theorem level_succ (t : BinaryTree α) (depth : ℕ) : level t (depth + 1) =
    (children t).flatMap fun kid => level kid depth := by
  cases t with
  | nil => rfl
  | node a left right =>
    rw [children, List.flatMap_append, flatMap_present rfl, flatMap_present rfl]
    rfl

/-- What is left of one level comes first, then the part of the next level that the queue has already. -/
theorem visit_append : visit (rest ++ kids) = rest.flatMap (level · 0) ++
    visit (kids ++ rest.flatMap children) := by
  induction rest generalizing kids with
  | nil => rw [List.flatMap_nil, List.flatMap_nil, List.nil_append, List.nil_append, List.append_nil]
  | cons t rest ih =>
    cases t with
    | nil =>
      rw [List.cons_append, visit, ih]
      rfl
    | node a left right =>
      rw [List.cons_append, visit, List.append_assoc, ih, List.flatMap_cons, List.flatMap_cons,
        List.append_assoc]
      rfl

theorem eq_of_mem_present {kid : BinaryTree α} (member : kid ∈ present t) : kid = t := by
  cases t with
  | nil => exact absurd member List.not_mem_nil
  | node a left right => exact List.mem_singleton.mp member

theorem mem_children {a : α} {left right kid : BinaryTree α}
    (member : kid ∈ children (.node a left right)) :
    kid = left ∨ kid = right :=
  (List.mem_append.mp member).imp eq_of_mem_present eq_of_mem_present

theorem children_height {kid : BinaryTree α} (member : kid ∈ children t) : kid.height < t.height := by
  cases t with
  | nil => exact absurd member List.not_mem_nil
  | node a left right =>
    rw [BinaryTree.height]
    rcases mem_children member with rfl | rfl
    · omega
    · omega

/-- A queue that starts with a whole level comes by it and by all levels below. -/
theorem visit_eq (height : ℕ) (bound : ∀ t ∈ ts, t.height ≤ height) :
    visit ts = (List.range height).flatMap fun depth => ts.flatMap (level · depth) := by
  induction height generalizing ts with
  | zero =>
    induction ts with
    | nil => rw [visit, List.range_zero, List.flatMap_nil]
    | cons t ts ih =>
      cases t with
      | nil =>
        rw [visit, ih fun t member => bound t (List.mem_cons_of_mem _ member)]
        rfl
      | node a left right => exact absurd (bound _ List.mem_cons_self) (Nat.not_succ_le_zero _)
  | succ height ih =>
    have below : ∀ kid ∈ ts.flatMap children, kid.height ≤ height := by
      intro kid member
      obtain ⟨t, inside, isChild⟩ := List.mem_flatMap.mp member
      exact Nat.le_of_lt_succ (Nat.lt_of_lt_of_le (children_height isChild) (bound t inside))
    have next : visit ts = ts.flatMap (level · 0) ++ visit (ts.flatMap children) := by
      have split : visit (ts ++ []) = ts.flatMap (level · 0) ++ visit ([] ++ ts.flatMap children) :=
        visit_append
      rwa [List.append_nil, List.nil_append] at split
    rw [next, ih below, List.range_succ_eq_map, List.flatMap_cons, List.flatMap_map]
    refine congrArg (ts.flatMap (level · 0) ++ List.flatMap · (List.range height))
      (funext fun depth => ?_)
    rw [List.flatMap_assoc]
    exact List.flatMap_congr fun t _ => (level_succ t depth).symm

/-- From the root the queue comes by the whole tree in level order. -/
theorem visit_root (t : BinaryTree α) : visit [t] = levelOrder t := by
  rw [levelOrder, visit_eq t.height fun u member => (List.mem_singleton.mp member).symm ▸ Nat.le_refl _]
  exact List.flatMap_congr fun depth _ => List.flatMap_singleton ..

theorem visit_perm (ts : List (BinaryTree α)) : (visit ts).Perm (ts.flatMap inorder) := by
  induction ts using visit.induct with
  | case1 =>
    rw [visit]
    exact List.Perm.refl _
  | case2 queue ih =>
    rw [visit]
    exact ih
  | case3 a left right queue ih =>
    rw [visit, List.flatMap_cons, inorder]
    rw [List.flatMap_append, children, List.flatMap_append, flatMap_present rfl,
      flatMap_present rfl] at ih
    have moved : (a :: (queue.flatMap inorder ++ (inorder left ++ inorder right))).Perm
        (a :: ((inorder left ++ inorder right) ++ queue.flatMap inorder)) := List.perm_append_comm.cons a
    have middle : (a :: ((inorder left ++ inorder right) ++ queue.flatMap inorder)).Perm
        ((inorder left ++ a :: inorder right) ++ queue.flatMap
          inorder) := List.perm_middle.symm.append_right _
    exact (ih.cons a).trans (moved.trans middle)

/-- Every node is there once. -/
theorem levelOrder_perm (t : BinaryTree α) : (levelOrder t).Perm (inorder t) := by
  rw [← visit_root]
  exact (visit_perm [t]).trans (List.Perm.of_eq (List.flatMap_singleton ..))

end LinuxZero.LevelOrder
