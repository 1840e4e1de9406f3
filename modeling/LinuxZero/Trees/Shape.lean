import LinuxZero.Trees.Insert
import Mathlib.Analysis.SpecialFunctions.Log.Base

/-! # The tree as the pointers show it

What a red-black tree is, said of the nodes that can be reached from the root: the rules of its colors, the
order of its keys, the parent of each node and how long a path is. A search tree in memory obeys all of this.
-/

namespace LinuxZero.Trees

open RedBlack ColorTree

/-- A path down leads from a node along children to another one, or to `nil`; the nodes that it leaves are listed. -/
inductive Down (T : Rbtree) : ℕ → List ℕ → ℕ → Prop
  | here (p : ℕ) : Down T p [] p
  | step {p q : ℕ} {nodes : List ℕ} (side : Side) (real : p ≠ T.nil)
      (below : Down T ((T.node p).child side) nodes q) :
      Down T p (p :: nodes) q

def Reaches (T : Rbtree) (p q : ℕ) : Prop := q ≠ T.nil ∧ ∃ nodes, Down T p nodes q

/-- The nodes of the tree. -/
def InTree (T : Rbtree) (p : ℕ) : Prop := Reaches T T.root p

/-- The keys of the tree. -/
def keys (T : Rbtree) : Set ℤ := {key | ∃ p, InTree T p ∧ (T.node p).key = key}

def blackNodes (T : Rbtree) (nodes : List ℕ) : ℕ := nodes.countP fun p => (T.node p).color = BLACK

/-- The rules of a red-black tree. -/
structure IsRedBlack (T : Rbtree) : Prop where
  root : (T.node T.root).color = BLACK ∨ T.root = T.nil
  nil : (T.node T.nil).color = BLACK
  color : ∀ p, InTree T p → (T.node p).color = RED ∨ (T.node p).color = BLACK
  red : ∀ p, InTree T p → (T.node p).color = RED → ∀ side, (T.node ((T.node p).child side)).color ≠ RED
  black : ∀ p, InTree T p → ∀ nodes nodes', Down T p nodes T.nil → Down T p nodes' T.nil →
    blackNodes T nodes = blackNodes T nodes'
  less : ∀ p, InTree T p → ∀ q, Reaches T (T.node p).left q → (T.node q).key < (T.node p).key
  greater : ∀ p, InTree T p → ∀ q, Reaches T (T.node p).right q → (T.node p).key < (T.node q).key
  parent : ∀ p, InTree T p → ∀ side, (T.node p).child side ≠ T.nil →
    (T.node ((T.node p).child side)).parent = p
  root_parent : T.root ≠ T.nil → (T.node T.root).parent = T.nil
  finite : (keys T).Finite
  height : ∀ nodes q, Down T T.root nodes q → (nodes.length : ℝ) ≤ 2 * Real.logb 2 ((keys T).ncard + 1)

variable {T : Rbtree} {t : ColorTree Item} {path : TreePath Item} {n p q : ℕ} {nodes : List ℕ}

section Down

theorem down_nil : Down T T.nil nodes q ↔ nodes = [] ∧ q = T.nil := by
  constructor
  · rintro (_ | ⟨_, real, _⟩)
    · exact ⟨rfl, rfl⟩
    · exact absurd rfl real
  · rintro ⟨rfl, rfl⟩
    exact .here _

theorem down_node {c : Color} {left right : ColorTree Item} {item : Item}
    (holds : Holds T path (.node c left item right)) :
    Down T item.ptr nodes q ↔ (nodes = [] ∧ q = item.ptr) ∨
      ∃ rest, nodes = item.ptr :: rest ∧
        (Down T (ptrOf T.nil left) rest q ∨ Down T (ptrOf T.nil right) rest q) := by
  have left_ptr : (T.node item.ptr).child .left = ptrOf T.nil left := holds.tree.1.near
  have right_ptr : (T.node item.ptr).child .right = ptrOf T.nil right := holds.tree.1.far
  constructor
  · rintro (_ | ⟨side, _, below⟩)
    · exact Or.inl ⟨rfl, rfl⟩
    · refine Or.inr ⟨_, rfl, ?_⟩
      cases side with
      | left => exact Or.inl (left_ptr ▸ below)
      | right => exact Or.inr (right_ptr ▸ below)
  · have real : item.ptr ≠ T.nil := fun null => holds.nonnil_tree (null ▸ root_mem)
    rintro (⟨rfl, rfl⟩ | ⟨rest, rfl, below | below⟩)
    · exact .here _
    · exact .step .left real (left_ptr ▸ below)
    · exact .step .right real (right_ptr ▸ below)

theorem holds_left {c : Color} {left right : ColorTree Item} {item : Item}
    (holds : Holds T path (.node c left item right)) :
    Holds T (⟨.left, c, item, right⟩ :: path) left := holds_cons.mpr holds

theorem holds_right {c : Color} {left right : ColorTree Item} {item : Item}
    (holds : Holds T path (.node c left item right)) :
    Holds T (⟨.right, c, item, left⟩ :: path) right := holds_cons.mpr holds

theorem reaches_iff (path : TreePath Item) (holds : Holds T path t) : Reaches T (ptrOf T.nil t) q ↔
    q ∈ treePtrs t := by
  induction t generalizing path with
  | leaf =>
    refine iff_of_false ?_ List.not_mem_nil
    rintro ⟨real, nodes, down⟩
    exact real (down_nil.mp down).2
  | node c left item right ihl ihr =>
    have lower := ihl _ (holds_left holds)
    have upper := ihr _ (holds_right holds)
    have members : q ∈ treePtrs (.node c left item right) ↔ q = item.ptr ∨ q ∈ treePtrs left ∨
      q ∈ treePtrs right :=
      mem_treePtrs_join (s := .left)
    rw [members, ← lower, ← upper]
    simp only [Reaches, ptrOf, down_node holds]
    constructor
    · rintro ⟨real, nodes, ⟨rfl, rfl⟩ | ⟨rest, rfl, below | below⟩⟩
      · exact Or.inl rfl
      · exact Or.inr (Or.inl ⟨real, rest, below⟩)
      · exact Or.inr (Or.inr ⟨real, rest, below⟩)
    · rintro (rfl | ⟨real, rest, below⟩ | ⟨real, rest, below⟩)
      · exact ⟨fun null => holds.nonnil_tree (null ▸ root_mem), [], Or.inl ⟨rfl, rfl⟩⟩
      · exact ⟨real, _, Or.inr ⟨rest, rfl, Or.inl below⟩⟩
      · exact ⟨real, _, Or.inr ⟨rest, rfl, Or.inr below⟩⟩

theorem Down.length_le (path : TreePath Item) (holds : Holds T path t)
    (down : Down T (ptrOf T.nil t) nodes q) :
    nodes.length ≤ t.height := by
  induction t generalizing path nodes with
  | leaf =>
    rw [(down_nil.mp down).1]
    exact le_rfl
  | node c left item right ihl ihr =>
    rw [height]
    rcases (down_node holds).mp down with ⟨rfl, _⟩ | ⟨rest, rfl, below | below⟩
    · exact Nat.zero_le _
    · have bound := ihl _ (holds_left holds) below
      rw [List.length_cons]
      omega
    · have bound := ihr _ (holds_right holds) below
      rw [List.length_cons]
      omega

/-- Every path down to `nil` has as many black nodes as the tree's black height. -/
theorem Down.blackNodes_eq (path : TreePath Item) (holds : Holds T path t) (balanced : t.Balanced n)
    (down : Down T (ptrOf T.nil t) nodes T.nil) : blackNodes T nodes = n := by
  induction t generalizing path nodes n with
  | leaf =>
    rw [(down_nil.mp down).1]
    exact (balanced : n = 0).symm
  | node c left item right ihl ihr =>
    have color : (T.node item.ptr).color = byte c := holds.tree.1.color
    have real : item.ptr ≠ T.nil := fun null => holds.nonnil_tree (null ▸ root_mem)
    obtain ⟨rest, rfl, below⟩ := ((down_node holds).mp down).resolve_left fun here => real here.2.symm
    rw [blackNodes, List.countP_cons, color, ← blackNodes]
    cases c with
    | red =>
      rw [below.elim (ihl _ (holds_left holds) balanced.1.2) (ihr _ (holds_right holds) balanced.2.2)]
      rfl
    | black =>
      obtain ⟨m, rfl, lower, upper⟩ := Balanced.black_cases (s := .left) balanced
      rw [below.elim (ihl _ (holds_left holds) lower) (ihr _ (holds_right holds) upper)]
      rfl

end Down

section Content

theorem At.content_of_mem {node : ℕ → RbtreeNode} {nil parent : ℕ} {i : Item}
    (tree : At node nil parent t) (member : i ∈ t.inorder) : (node i.ptr).key = i.key ∧
    (node i.ptr).value = i.value := by
  induction t generalizing parent with
  | leaf => exact absurd member List.not_mem_nil
  | node c left item right ihl ihr =>
    obtain ⟨cell, lower, upper⟩ := tree
    rcases (mem_inorder_join .left left right item (c := c)).mp member with rfl | member | member
    · exact ⟨cell.key, cell.value⟩
    · exact ihl lower member
    · exact ihr upper member

theorem Holds.inTree_iff (holds : Holds T [] t) : InTree T p ↔ p ∈ treePtrs t := by
  rw [InTree, holds.root]
  exact reaches_iff [] holds

theorem SearchTree.inTree_iff (tree : SearchTree T t) : InTree T p ↔ p ∈ treePtrs t :=
  tree.holds.inTree_iff

/-- What the tree holds is what its nodes hold. -/
theorem SearchTree.mem_content_iff (tree : SearchTree T t) {key : ℤ} {value : ℕ} :
    (key, value) ∈ content t ↔ ∃ p, InTree T p ∧ (T.node p).key = key ∧ (T.node p).value = value := by
  simp only [tree.inTree_iff, content, treePtrs, List.mem_map]
  constructor
  · rintro ⟨i, member, equal⟩
    obtain ⟨key_eq, value_eq⟩ := tree.holds.tree.content_of_mem member
    obtain ⟨rfl, rfl⟩ := Prod.mk.inj equal
    exact ⟨i.ptr, ⟨i, member, rfl⟩, key_eq, value_eq⟩
  · rintro ⟨_, ⟨i, member, rfl⟩, rfl, rfl⟩
    obtain ⟨key_eq, value_eq⟩ := tree.holds.tree.content_of_mem member
    exact ⟨i, member, by rw [key_eq, value_eq]⟩

theorem Sorted.nodup_keys {list : List (ℤ × ℕ)} (sorted : Sorted list) : (list.map Prod.fst).Nodup :=
  (List.pairwise_map.mpr sorted).imp ne_of_lt

theorem SearchTree.keys_eq (tree : SearchTree T t) : keys T = ((content t).map Prod.fst).toFinset := by
  ext key
  simp only [keys, Set.mem_ofPred_eq, Finset.mem_coe, List.mem_toFinset, List.mem_map, Prod.exists,
    exists_and_right, exists_eq_right, tree.mem_content_iff]
  exact ⟨fun ⟨p, inTree, key⟩ => ⟨_, p, inTree, key, rfl⟩, fun ⟨_, p, inTree, key, _⟩ => ⟨p, inTree, key⟩⟩

theorem SearchTree.ncard_keys (tree : SearchTree T t) : (keys T).ncard = t.inorder.length := by
  rw [tree.keys_eq, Set.ncard_coe_finset, List.toFinset_card_of_nodup tree.sorted.nodup_keys,
    List.length_map, content, List.length_map]

end Content

/-- What is below a node of the tree. -/
structure Subtree (T : Rbtree) (path : TreePath Item) (c : Color) (left : ColorTree Item) (item : Item)
    (right : ColorTree Item) (n : ℕ) : Prop where
  holds : Holds T path (.node c left item right)
  fits : TreePath.Fits path (.node c left item right) n
  sorted : Sorted (content (.node c left item right))

theorem SearchTree.subtree (tree : SearchTree T t) (inTree : InTree T p) :
    ∃ path c left item right n, p = item.ptr ∧ Subtree T path c left item right n := by
  obtain ⟨item, member, rfl⟩ := List.mem_map.mp (tree.inTree_iff.mp inTree)
  obtain ⟨path, c, left, right, rfl⟩ := TreePath.exists_fill member
  obtain ⟨⟨holds, n, fits⟩, sorted⟩ := tree
  obtain ⟨m, below⟩ := fits.append
  rw [List.append_nil] at below
  exact ⟨path, c, left, item, right, m, rfl, holds_fill.mp holds, below, sorted.hole⟩

namespace Subtree

variable {c : Color} {left right : ColorTree Item} {item : Item}
  (sub : Subtree T path c left item right n)

include sub

theorem left_ptr : (T.node item.ptr).left = ptrOf T.nil left := sub.holds.tree.1.near

theorem right_ptr : (T.node item.ptr).right = ptrOf T.nil right := sub.holds.tree.1.far

theorem color : (T.node item.ptr).color = byte c := sub.holds.tree.1.color

theorem key : (T.node item.ptr).key = item.key := sub.holds.tree.1.key

/-- A red node has black children. -/
theorem red (is_red : (T.node item.ptr).color = RED) (side : Side) :
    (T.node ((T.node item.ptr).child side)).color ≠ RED := by
  obtain rfl : c = .red := byte_eq_red.mp (sub.color.symm.trans is_red)
  obtain ⟨⟨left_black, _⟩, right_black, _⟩ := sub.fits.tree
  cases side with
  | left =>
    rw [RbtreeNode.child, sub.left_ptr, (holds_left sub.holds).color, left_black]
    decide
  | right =>
    rw [RbtreeNode.child, sub.right_ptr, (holds_right sub.holds).color, right_black]
    decide

theorem black {nodes' : List ℕ} (down : Down T item.ptr nodes T.nil)
    (down' : Down T item.ptr nodes' T.nil) :
    blackNodes T nodes = blackNodes T nodes' :=
  (Down.blackNodes_eq path sub.holds sub.fits.tree down).trans
    (Down.blackNodes_eq path sub.holds sub.fits.tree down').symm

theorem less (reaches : Reaches T (T.node item.ptr).left q) : (T.node q).key < (T.node item.ptr).key := by
  rw [sub.left_ptr, reaches_iff _ (holds_left sub.holds)] at reaches
  obtain ⟨i, member, rfl⟩ := List.mem_map.mp reaches
  rw [((holds_left sub.holds).tree.content_of_mem member).1, sub.key]
  exact sub.sorted.sides.1 i member

theorem greater (reaches : Reaches T (T.node item.ptr).right q) :
    (T.node item.ptr).key < (T.node q).key := by
  rw [sub.right_ptr, reaches_iff _ (holds_right sub.holds)] at reaches
  obtain ⟨i, member, rfl⟩ := List.mem_map.mp reaches
  rw [((holds_right sub.holds).tree.content_of_mem member).1, sub.key]
  exact sub.sorted.sides.2 i member

theorem parent (side : Side) (real : (T.node item.ptr).child side ≠ T.nil) :
    (T.node ((T.node item.ptr).child side)).parent = item.ptr := by
  cases side with
  | left =>
    rw [RbtreeNode.child, sub.left_ptr] at real ⊢
    exact (holds_left sub.holds).parent_above
      ((ptrOf_eq_nil_iff (holds_left sub.holds).nonnil_tree).not.mp real)
  | right =>
    rw [RbtreeNode.child, sub.right_ptr] at real ⊢
    exact (holds_right sub.holds).parent_above
      ((ptrOf_eq_nil_iff (holds_right sub.holds).nonnil_tree).not.mp real)

end Subtree

/-- A bound on a power is a bound on the logarithm. -/
theorem le_logb_of_pow_le {m n : ℕ} (bound : 2 ^ m ≤ (n + 1) ^ 2) :
    (m : ℝ) ≤ 2 * Real.logb 2 (n + 1) := by
  have real : (2 : ℝ) ^ m ≤ ((n : ℝ) + 1) ^ 2 := by exact_mod_cast bound
  calc (m : ℝ) ≤ Real.logb 2 (((n : ℝ) + 1) ^ 2) := by
        rw [Real.le_logb_iff_rpow_le one_lt_two (by positivity), Real.rpow_natCast]
        exact real
    _ = 2 * Real.logb 2 (n + 1) := by
        rw [Real.logb_pow]
        rfl

/-- A search tree in memory obeys the rules. -/
theorem SearchTree.isRedBlack (tree : SearchTree T t) : IsRedBlack T := by
  have root := tree.holds.root
  obtain ⟨n, fits⟩ := tree.fits
  constructor
  case root =>
    refine Or.inl ?_
    rw [root, rootOf, tree.holds.color, fits.root rfl]
    rfl
  case nil => exact tree.holds.black
  case color =>
    intro p inTree
    obtain ⟨path, c, left, item, right, n, rfl, sub⟩ := tree.subtree inTree
    rw [sub.color]
    cases c with
    | red => exact Or.inl rfl
    | black => exact Or.inr rfl
  case red =>
    intro p inTree
    obtain ⟨path, c, left, item, right, n, rfl, sub⟩ := tree.subtree inTree
    exact sub.red
  case black =>
    intro p inTree nodes nodes'
    obtain ⟨path, c, left, item, right, n, rfl, sub⟩ := tree.subtree inTree
    exact sub.black
  case less =>
    intro p inTree q
    obtain ⟨path, c, left, item, right, n, rfl, sub⟩ := tree.subtree inTree
    exact sub.less
  case greater =>
    intro p inTree q
    obtain ⟨path, c, left, item, right, n, rfl, sub⟩ := tree.subtree inTree
    exact sub.greater
  case parent =>
    intro p inTree
    obtain ⟨path, c, left, item, right, n, rfl, sub⟩ := tree.subtree inTree
    exact sub.parent
  case root_parent =>
    intro real
    rw [root, rootOf] at real ⊢
    exact tree.holds.parent_above ((ptrOf_eq_nil_iff tree.holds.nonnil_tree).not.mp real)
  case finite =>
    rw [tree.keys_eq]
    exact Finset.finite_toSet _
  case height =>
    intro nodes q down
    rw [root] at down
    have short : 2 ^ nodes.length ≤ 2 ^ t.height := Nat.pow_le_pow_right (by decide)
      (down.length_le [] tree.holds)
    rw [tree.ncard_keys]
    exact le_logb_of_pow_le (short.trans (fits.tree.height_pow_le (fits.root rfl)))

end LinuxZero.Trees
