import Mathlib.Data.List.Basic
import Mathlib.Data.Tree.Basic
import Mathlib.Order.Lattice

/-! # Search trees

The nodes of a binary tree have keys, and the tree is ordered when its in-order traversal has increasing keys.
A search goes down by comparisons alone. Setting a key changes the node that is found, or adds a leaf where
the search has ended; what later searches find follows from that in every tree, and in an ordered tree a search
finds the only node that has the key.
-/

namespace LinuxZero.OrderedTree

variable {α κ : Type*}

def inorder : BinaryTree α → List α
  | .nil => []
  | .node a left right => inorder left ++ a :: inorder right

def root? : BinaryTree α → Option α
  | .nil => none
  | .node a _ _ => some a

theorem mem_inorder_node {a b : α} {left right : BinaryTree α} :
    b ∈ inorder (.node a left right) ↔ b ∈ inorder left ∨ b = a ∨ b ∈ inorder right := by
  rw [inorder, List.mem_append, List.mem_cons]

theorem root?_mem {a : α} {t : BinaryTree α} (root : root? t = some a) : a ∈ inorder t := by
  cases t with
  | nil => exact nomatch root
  | node b left right => exact Option.some.inj root ▸ mem_inorder_node.mpr (Or.inr (Or.inl rfl))

theorem exists_node {a : α} {t : BinaryTree α} (root : root? t = some a) : ∃ left right, t =
    .node a left right := by
  cases t with
  | nil => exact nomatch root
  | node b left right => exact ⟨left, right, Option.some.inj root ▸ rfl⟩

theorem root?_eq_none_iff {t : BinaryTree α} : root? t = none ↔ t = .nil := by
  cases t with
  | nil => exact iff_of_true rfl rfl
  | node a left right => exact iff_of_false nofun nofun

variable [LinearOrder κ] (key : α → κ)

def Ordered (t : BinaryTree α) : Prop := (inorder t).Pairwise fun a b => key a < key b

/-- The subtree at which the search for the key ends. -/
def subtree (k : κ) : BinaryTree α → BinaryTree α
  | .nil => .nil
  | .node a left right =>
    if key a = k then .node a left right
    else if k < key a then subtree k left
    else subtree k right

/-- The search for the key goes down to this node, which has the key. -/
inductive Reaches (k : κ) (a : α) (left right : BinaryTree α) : BinaryTree α → Prop
  | here (same : key a = k) : Reaches k a left right (.node a left right)
  | left {b : α} {near far : BinaryTree α} (less : k < key b) (below : Reaches k a left right near) :
      Reaches k a left right (.node b near far)
  | right {b : α} {near far : BinaryTree α} (greater : key b < k) (below : Reaches k a left right far) :
      Reaches k a left right (.node b near far)

def find (k : κ) (t : BinaryTree α) : Option α := root? (subtree key k t)

/-- The node with the key is changed; a new one is added when there is none. -/
def put (k : κ) (change : α → α) (new : α) : BinaryTree α → BinaryTree α
  | .nil => .node new .nil .nil
  | .node a left right =>
    if key a = k then .node (change a) left right
    else if k < key a then .node a (put k change new left) right
    else .node a left (put k change new right)

variable {key} {k : κ} {a b new : α} {t left right : BinaryTree α} {change : α → α}

section Order

theorem ordered_node : Ordered key (.node a left right) ↔
    (Ordered key left ∧ ∀ b ∈ inorder left, key b < key a) ∧ Ordered key right ∧
    ∀ b ∈ inorder right, key a < key b := by
  rw [Ordered, inorder, List.pairwise_append, List.pairwise_cons]
  constructor
  · rintro ⟨lower, ⟨above, upper⟩, between⟩
    exact ⟨⟨lower, fun b member => between b member a List.mem_cons_self⟩, upper, above⟩
  · rintro ⟨⟨lower, below⟩, upper, above⟩
    refine ⟨lower, ⟨above, upper⟩, fun b member c member' => ?_⟩
    cases member' with
    | head => exact below b member
    | tail _ member' => exact (below b member).trans (above c member')

theorem Ordered.nodup_keys (ordered : Ordered key t) : ((inorder t).map key).Nodup :=
  List.pairwise_map.mpr (ordered.imp fun less => less.ne)

/-- A part of an ordered tree is ordered. -/
theorem Ordered.sublist {t' : BinaryTree α} (ordered : Ordered key t)
    (part : (inorder t').Sublist (inorder t)) : Ordered key t' :=
  List.Pairwise.sublist part ordered

end Order

section Find

theorem subtree_here (here : key a = k) : subtree key k (.node a left right) = .node a left right :=
  if_pos here

theorem subtree_left (less : k < key a) : subtree key k (.node a left right) = subtree key k left := by
  rw [subtree, if_neg less.ne', if_pos less]

theorem subtree_right (greater : key a < k) : subtree key k (.node a left right) =
    subtree key k right := by
  rw [subtree, if_neg greater.ne, if_neg greater.not_gt]

theorem find_here (here : key a = k) : find key k (.node a left right) =
    some a := by rw [find, subtree_here here, root?]

theorem find_left (less : k < key a) : find key k (.node a left right) =
    find key k left := by rw [find, subtree_left less, find]

theorem find_right (greater : key a < k) : find key k (.node a left right) = find key k right := by
  rw [find, subtree_right greater, find]

theorem reaches_of_subtree (found : subtree key k t = .node a left right) :
    Reaches key k a left right t := by
  induction t with
  | nil => exact nomatch found
  | node b near far ihl ihr =>
    rcases lt_trichotomy k (key b) with less | here | greater
    · exact .left less (ihl (subtree_left less ▸ found))
    · rw [subtree_here here.symm] at found
      cases found
      exact .here here.symm
    · exact .right greater (ihr (subtree_right greater ▸ found))

theorem key_of_find (found : find key k t = some b) : key b = k := by
  induction t with
  | nil => exact nomatch found
  | node a left right ihl ihr =>
    rcases lt_trichotomy k (key a) with less | here | greater
    · exact ihl (find_left less ▸ found)
    · exact Option.some.inj (find_here here.symm ▸ found) ▸ here.symm
    · exact ihr (find_right greater ▸ found)

theorem mem_of_find (found : find key k t = some b) : b ∈ inorder t := by
  induction t with
  | nil => exact nomatch found
  | node a left right ihl ihr =>
    rw [mem_inorder_node]
    rcases lt_trichotomy k (key a) with less | here | greater
    · exact Or.inl (ihl (find_left less ▸ found))
    · exact Or.inr (Or.inl (Option.some.inj (find_here here.symm ▸ found)).symm)
    · exact Or.inr (Or.inr (ihr (find_right greater ▸ found)))

theorem Ordered.find_of_mem (ordered : Ordered key t) (member : b ∈ inorder t) :
    find key (key b) t = some b := by
  induction t with
  | nil => exact absurd member List.not_mem_nil
  | node a left right ihl ihr =>
    obtain ⟨⟨lower, below⟩, upper, above⟩ := ordered_node.mp ordered
    rcases mem_inorder_node.mp member with member | rfl | member
    · rw [find_left (below b member)]
      exact ihl lower member
    · exact find_here rfl
    · rw [find_right (above b member)]
      exact ihr upper member

/-- A search finds the only node with the key. -/
theorem Ordered.find_eq_some_iff (ordered : Ordered key t) : find key k t = some b ↔ b ∈ inorder t ∧
    key b = k := by
  constructor
  · exact fun found => ⟨mem_of_find found, key_of_find found⟩
  · rintro ⟨member, rfl⟩
    exact ordered.find_of_mem member

theorem Ordered.find_eq_none_iff (ordered : Ordered key t) : find key k t = none ↔
    ∀ b ∈ inorder t, key b ≠ k := by
  rw [Option.eq_none_iff_forall_ne_some]
  simp only [ne_eq, ordered.find_eq_some_iff, not_and]

end Find

section Put

theorem put_here (here : key a = k) : put key k change new (.node a left right) =
    .node (change a) left right := if_pos here

theorem put_left (less : k < key a) : put key k change new (.node a left right) =
    .node a (put key k change new left) right := by
  rw [put, if_neg less.ne', if_pos less]

theorem put_right (greater : key a < k) : put key k change new (.node a left right) =
    .node a left (put key k change new right) := by
  rw [put, if_neg greater.ne, if_neg greater.not_gt]

/-- What can be in the tree afterwards. -/
theorem mem_put (member : b ∈ inorder (put key k change new t)) :
    b ∈ inorder t ∨ b = new ∨ ∃ a ∈ inorder t, key a = k ∧ b = change a := by
  induction t with
  | nil =>
    obtain rfl := List.mem_singleton.mp member
    exact Or.inr (Or.inl rfl)
  | node a left right ihl ihr =>
    simp only [mem_inorder_node] at ihl ihr ⊢
    rcases lt_trichotomy k (key a) with less | here | greater
    · rw [put_left less, mem_inorder_node] at member
      grind
    · rw [put_here here.symm, mem_inorder_node] at member
      grind
    · rw [put_right greater, mem_inorder_node] at member
      grind

variable (kept : ∀ a, key (change a) = key a) (own : key new = k)
include kept own

theorem key_mem_put (member : b ∈ inorder (put key k change new t)) : key b = k ∨
    ∃ a ∈ inorder t, key a = key b := by
  rcases mem_put member with member | rfl | ⟨a, member, here, rfl⟩
  · exact Or.inr ⟨b, member, rfl⟩
  · exact Or.inl own
  · exact Or.inl ((kept a).trans here)

theorem Ordered.put (ordered : Ordered key t) : Ordered key (put key k change new t) := by
  induction t with
  | nil => exact List.pairwise_singleton ..
  | node a left right ihl ihr =>
    obtain ⟨⟨lower, below⟩, upper, above⟩ := ordered_node.mp ordered
    rcases lt_trichotomy k (key a) with less | here | greater
    · rw [put_left less, ordered_node]
      refine ⟨⟨ihl lower, fun b member => ?_⟩, upper, above⟩
      rcases key_mem_put kept own member with same | ⟨c, member, same⟩
      · exact same ▸ less
      · exact same ▸ below c member
    · rw [put_here here.symm, ordered_node, kept]
      exact ⟨⟨lower, below⟩, upper, above⟩
    · rw [put_right greater, ordered_node]
      refine ⟨⟨lower, below⟩, ihr upper, fun b member => ?_⟩
      rcases key_mem_put kept own member with same | ⟨c, member, same⟩
      · exact same ▸ greater
      · exact same ▸ above c member

/-- The key is found now: the changed node, or the new one. -/
theorem find_put : find key k (OrderedTree.put key k change new t) =
    some ((find key k t).elim new change) := by
  induction t with
  | nil => exact find_here own
  | node a left right ihl ihr =>
    rcases lt_trichotomy k (key a) with less | here | greater
    · rw [put_left less, find_left less, find_left less, ihl]
    · rw [put_here here.symm, find_here ((kept a).trans here.symm), find_here here.symm, Option.elim]
    · rw [put_right greater, find_right greater, find_right greater, ihr]

/-- Another key is found as before. -/
theorem find_put_of_ne {k' : κ} (differ : k' ≠ k) :
    find key k' (OrderedTree.put key k change new t) = find key k' t := by
  induction t with
  | nil =>
    rcases lt_or_gt_of_ne (own.symm ▸ differ : k' ≠ key new) with less | greater
    · exact find_left less
    · exact find_right greater
  | node a left right ihl ihr =>
    rcases lt_trichotomy k (key a) with less | here | greater
    · rw [put_left less]
      rcases lt_trichotomy k' (key a) with less' | here' | greater'
      · rw [find_left less', find_left less', ihl]
      · rw [find_here here'.symm, find_here here'.symm]
      · rw [find_right greater', find_right greater']
    · rw [put_here here.symm]
      have same : key (change a) = k := (kept a).trans here.symm
      rcases lt_or_gt_of_ne differ with less' | greater'
      · rw [find_left (less'.trans_eq same.symm), find_left (less'.trans_eq here)]
      · rw [find_right (same.trans_lt greater'), find_right (here.symm.trans_lt greater')]
    · rw [put_right greater]
      rcases lt_trichotomy k' (key a) with less' | here' | greater'
      · rw [find_left less', find_left less']
      · rw [find_here here'.symm, find_here here'.symm]
      · rw [find_right greater', find_right greater', ihr]

end Put

end LinuxZero.OrderedTree
