import LinuxZero.Bst.BstTree
import LinuxZero.Lib.OrderedTree
import Mathlib.Data.Int.Order.Basic
import Mathlib.Data.List.Nodup

/-! # Binary trees in memory

The nodes of a tree have their keys and their data in memory, and point at their children. What a node says
about its parent is a fact of its own: a deletion keeps the tree without keeping it.
-/

namespace LinuxZero.Bst

open OrderedTree

/-- A node and what it holds. -/
structure Item where
  ptr : ℕ
  key : ℤ
  data : UInt8
deriving DecidableEq, Repr

abbrev ItemTree := BinaryTree Item

def ptrOf (t : ItemTree) : ℕ := ((root? t).map Item.ptr).getD 0

def ptrs (t : ItemTree) : List ℕ := (inorder t).map Item.ptr

/-- What the tree holds, in order. -/
def pairs (t : ItemTree) : List (ℤ × UInt8) := (inorder t).map fun item => (item.key, item.data)

/-- The nodes are in memory. -/
def Linked (M : Heap) : ItemTree → Prop
  | .nil => True
  | .node item left right => item.ptr ≠ 0 ∧
      (∃ p, M item.ptr = some ⟨item.key, item.data, p, ptrOf left, ptrOf right⟩) ∧
      Linked M left ∧ Linked M right

/-- The `p` field of the root is `p`, and that of every other node is its parent. -/
def ParentsHold (M : Heap) (p : ℕ) : ItemTree → Prop
  | .nil => True
  | .node item left right => (M item.ptr).map TreeNode.p = some p ∧ ParentsHold M item.ptr left ∧
      ParentsHold M item.ptr right

/-- The memory holds the tree at this root. -/
structure Holds (M : Heap) (root : ℕ) (t : ItemTree) : Prop where
  root : root = ptrOf t
  linked : Linked M t
  nodup : (ptrs t).Nodup

variable {M M' : Heap} {t t' left right : ItemTree} {item : Item} {x p : ℕ}

@[simp] theorem ptrOf_nil : ptrOf .nil = 0 := rfl

@[simp] theorem ptrOf_node : ptrOf (.node item left right) = item.ptr := rfl

theorem mem_ptrs_node : x ∈ ptrs (.node item left right) ↔ x ∈ ptrs left ∨ x = item.ptr ∨
    x ∈ ptrs right := by
  rw [ptrs, inorder, List.map_append, List.map_cons, List.mem_append, List.mem_cons, ptrs, ptrs]

theorem mem_ptrs_root : item.ptr ∈ ptrs (.node item left right) := mem_ptrs_node.mpr (Or.inr (Or.inl rfl))

theorem nodup_ptrs_node : (ptrs (.node item left right)).Nodup ↔
    ((ptrs left).Nodup ∧ item.ptr ∉ ptrs left) ∧ ((ptrs right).Nodup ∧ item.ptr ∉ ptrs right) ∧
    ∀ x ∈ ptrs left, x ∉ ptrs right := by
  rw [ptrs, inorder, List.map_append, List.map_cons, List.nodup_middle, List.nodup_cons,
    List.nodup_append, List.mem_append, ← ptrs, ← ptrs]
  grind

section Linked

theorem linked_congr (same : ∀ x ∈ ptrs t, M' x = M x) (linked : Linked M t) : Linked M' t := by
  induction t with
  | nil => trivial
  | node item left right ihl ihr =>
    simp only [mem_ptrs_node] at same
    obtain ⟨real, ⟨p, held⟩, lower, upper⟩ := linked
    refine ⟨real, ⟨p, (same _ (Or.inr (Or.inl rfl))).trans held⟩,
      ihl (fun x member => same x (Or.inl member)) lower, ?_⟩
    exact ihr (fun x member => same x (Or.inr (Or.inr member))) upper

theorem Linked.held (linked : Linked M t) (member : item ∈ inorder t) :
    item.ptr ≠ 0 ∧ ∃ n, M item.ptr = some n ∧ n.key = item.key ∧ n.data = item.data := by
  induction t with
  | nil => exact absurd member List.not_mem_nil
  | node a left right ihl ihr =>
    obtain ⟨real, ⟨p, held⟩, lower, upper⟩ := linked
    rcases mem_inorder_node.mp member with member | rfl | member
    · exact ihl lower member
    · exact ⟨real, _, held, rfl, rfl⟩
    · exact ihr upper member

theorem Linked.allocated (linked : Linked M t) (member : x ∈ ptrs t) : x ≠ 0 ∧ M x ≠ none := by
  obtain ⟨item, within, rfl⟩ := List.mem_map.mp member
  obtain ⟨real, n, held, _⟩ := linked.held within
  exact ⟨real, held ▸ Option.some_ne_none n⟩

theorem Linked.ptrOf_eq_zero_iff (linked : Linked M t) : ptrOf t = 0 ↔ t = .nil := by
  cases t with
  | nil => exact iff_of_true rfl rfl
  | node item left right => exact iff_of_false linked.1 nofun

/-- The memory holds one tree at most. -/
theorem Linked.unique (linked : Linked M t) (linked' : Linked M t') (same : ptrOf t = ptrOf t') :
    t = t' := by
  induction t generalizing t' with
  | nil => exact (linked'.ptrOf_eq_zero_iff.mp same.symm).symm
  | node item left right ihl ihr =>
    cases t' with
    | nil => exact absurd same linked.1
    | node item' left' right' =>
      obtain ⟨real, ⟨p, held⟩, lower, upper⟩ := linked
      obtain ⟨real', ⟨p', held'⟩, lower', upper'⟩ := linked'
      rw [ptrOf_node, ptrOf_node] at same
      rw [← same, held, Option.some_inj, TreeNode.mk.injEq] at held'
      obtain ⟨key, data, _, leftPtr, rightPtr⟩ := held'
      rw [ihl lower lower' leftPtr, ihr upper upper' rightPtr]
      exact congrArg (BinaryTree.node · left' right') (by cases item; cases item'; simp_all)

theorem Linked.subtree (linked : Linked M t) (k : ℤ) : Linked M (subtree Item.key k t) := by
  induction t with
  | nil => trivial
  | node item left right ihl ihr =>
    rw [OrderedTree.subtree]
    split_ifs
    · exact linked
    · exact ihl linked.2.2.1
    · exact ihr linked.2.2.2

end Linked

section Parents

theorem parentsHold_congr (same : ∀ x ∈ ptrs t, (M' x).map TreeNode.p = (M x).map TreeNode.p)
    (parents : ParentsHold M p t) :
    ParentsHold M' p t := by
  induction t generalizing p with
  | nil => trivial
  | node item left right ihl ihr =>
    simp only [mem_ptrs_node] at same
    obtain ⟨here, lower, upper⟩ := parents
    refine ⟨(same _ (Or.inr (Or.inl rfl))).trans here,
      ihl (fun x member => same x (Or.inl member)) lower, ?_⟩
    exact ihr (fun x member => same x (Or.inr (Or.inr member))) upper

end Parents

end LinuxZero.Bst
