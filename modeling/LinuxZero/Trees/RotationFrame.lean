import LinuxZero.Lib.LinkedTree
import LinuxZero.Trees.Rotation

/-! # What a rotation leaves alone

The pointers of the heap as slots: the rotations of the source are rotations of a linked tree, whatever the
colors are and whatever `nil` holds. Balancing rotates in the middle of its work, and what it has left in the
parent of `nil` must be there afterwards.
-/

namespace LinuxZero.Trees

open LinkedTree (Slot LinkedBelow Hangs Place Edge join above)
open OrderedTree (inorder)

/-- All of a node but its pointers. -/
def RbtreeNode.content (node : RbtreeNode) : UInt8 × ℤ × ℕ := (node.color, node.key, node.value)

def Rbtree.load (T : Rbtree) : Slot ℕ → ℕ
  | .root => T.root
  | .child side p => (T.node p).child side
  | .parent p => (T.node p).parent

/-- The heap holds a binary tree with these nodes in order, and every node knows its parent. -/
def WellLinked (T : Rbtree) (nodes : List ℕ) : Prop :=
  ∃ t, LinkedTree.Linked T.load T.nil t ∧ inorder t = nodes

variable {T T' : Rbtree} {nodes : List ℕ} {p q x y parent : ℕ} {side : Side} {down : Slot ℕ}
  {a b d : BinaryTree ℕ}
  {f : RbtreeNode → RbtreeNode}

section Load

theorem load_setChild : (T.modify p (.setChild side q)).load =
    Function.update T.load (.child side p) q := by
  funext slot
  by_cases isSlot : slot = .child side p
  · rw [isSlot, Function.update_self, Rbtree.load, node_modify_self, child_setChild]
  · rw [Function.update_of_ne isSlot]
    cases slot with
    | root => rfl
    | child s r =>
      by_cases same : r = p
      · have other : s ≠ side := by
          rintro rfl
          exact isSlot (same ▸ rfl)
        rw [same, Rbtree.load, node_modify_self, child_setChild_other other, Rbtree.load]
      · rw [Rbtree.load, node_modify_of_ne same, Rbtree.load]
    | parent r =>
      by_cases same : r = p
      · rw [same, Rbtree.load, node_modify_self, parent_setChild, Rbtree.load]
      · rw [Rbtree.load, node_modify_of_ne same, Rbtree.load]

theorem load_setParent : (T.modify p (.setParent q)).load = Function.update T.load (.parent p) q := by
  funext slot
  by_cases isSlot : slot = .parent p
  · rw [isSlot, Function.update_self, Rbtree.load, node_modify_self]
    rfl
  · rw [Function.update_of_ne isSlot]
    cases slot with
    | root => rfl
    | child s r =>
      by_cases same : r = p
      · rw [same, Rbtree.load, node_modify_self, child_setParent, Rbtree.load]
      · rw [Rbtree.load, node_modify_of_ne same, Rbtree.load]
    | parent r =>
      have other : r ≠ p := fun same => isSlot (same ▸ rfl)
      rw [Rbtree.load, node_modify_of_ne other, Rbtree.load]

theorem load_reparent : (reparent T p q).load =
    if p ≠ T.nil then Function.update T.load (.parent p) q else T.load := by
  rw [reparent]
  split_ifs
  · exact load_setParent
  · rfl

theorem load_setRoot : ({ T with root := q } : Rbtree).load = Function.update T.load .root q := by
  funext slot
  by_cases isRoot : slot = .root
  · rw [isRoot, Function.update_self]
    rfl
  · rw [Function.update_of_ne isRoot]
    cases slot with
    | root => exact absurd rfl isRoot
    | child s r => rfl
    | parent r => rfl

/-- Whichever side is looked at first, the slot that points to the old node gets the new one. -/
theorem load_relink (place : Place T.load T.nil parent [x] down) (top : T.load down = x) :
    (relink T side parent x y).load = Function.update T.load down y := by
  cases down with
  | root =>
    have noParent : parent = T.nil := place
    rw [relink, if_pos noParent]
    exact load_setRoot
  | child s r =>
    obtain ⟨rfl, real, _, beside⟩ := place
    rw [relink, if_neg real]
    by_cases same : side = s
    · subst same
      have isChild : x = (T.node r).child side := top.symm
      rw [if_pos isChild]
      exact load_setChild
    · obtain rfl : s = side.other := Side.eq_other_of_ne (Ne.symm same)
      rw [Side.other_other] at beside
      have other : x ≠ (T.node r).child side := fun equal => beside (List.mem_singleton.mpr equal.symm)
      rw [if_neg other]
      exact load_setChild
  | parent r => exact place.elim

/-- The six writes of the source are those of the rotation of a linked tree. -/
theorem load_rotate (hangs : Hangs T.load T.nil parent down (join side x a (join side y b d))) :
    (rotate T side x).load = LinkedTree.rotate T.load T.nil side x := by
  have around := hangs.around
  obtain ⟨_, _, isParent, _, inner⟩ := LinkedTree.linkedBelow_join.mp hangs.below
  obtain ⟨_, _, _, below, _⟩ := LinkedTree.linkedBelow_join.mp inner
  have writes := rotate_eq around.far around.near isParent around.apart around.apartBetween.1.symm
  -- when the place of `x` is looked at, only fields of the subtree are written
  generalize before : (reparent (T.modify x (.setChild side.other (T.load (.child side y))))
    (T.load (.child side y)) x).modify y
    (.setParent parent) = T₃ at writes
  have load₃ : T₃.load = Function.update (if T.load (.child side y) ≠ T.nil then
      Function.update (Function.update T.load (.child side.other x) (T.load (.child side y)))
        (.parent (T.load (.child side y))) x
    else Function.update T.load (.child side.other x) (T.load (.child side y))) (.parent y) parent := by
    rw [← before, load_setParent, load_reparent, load_setChild, nil_modify]
  have nil₃ : T₃.nil = T.nil := by rw [← before, nil_modify, nil_reparent, nil_modify]
  have kept : ∀ slot : Slot ℕ, ¬ slot.In (inorder (join side x a (join side y b d))) →
    T₃.load slot = T.load slot := by
    intro slot notIn
    have notField : ∀ other : Slot ℕ, other.In (inorder (join side x a (join side y b d))) →
      slot ≠ other :=
      fun other isIn => (isIn.ne notIn).symm
    rw [load₃, Function.update_of_ne (notField (.parent y) LinkedTree.upper_mem)]
    split_ifs with real
    · rw [Function.update_of_ne (notField (.parent _) (LinkedTree.between_mem (below.load_mem real))),
        Function.update_of_ne (notField (.child side.other x) LinkedTree.root_mem)]
    · rw [Function.update_of_ne (notField (.child side.other x) LinkedTree.root_mem)]
  have top₃ : T₃.load down = x := (kept down hangs.not_in).trans around.top
  have place₃ : Place T₃.load T₃.nil parent [x] down := by
    rw [nil₃]
    refine hangs.place.frame ?_ fun slot _ notIn => kept slot notIn
    exact List.cons_subset.mpr ⟨LinkedTree.root_mem, List.nil_subset _⟩
  rw [writes, load_setParent, load_setChild, load_relink place₃ top₃, load₃]
  simp only [LinkedTree.rotate, around.above, around.far]
  have isParent' : T.load (.parent x) = parent := isParent
  rw [isParent']

end Load

section Content

theorem content_setChild {node : RbtreeNode} : (node.setChild side q).content =
    node.content := by cases side <;> rfl

theorem content_setParent {node : RbtreeNode} : (node.setParent q).content = node.content := rfl

theorem content_modify (keeps : ∀ node, (f node).content = node.content) (q : ℕ) :
    ((T.modify p f).node q).content = (T.node q).content := by
  by_cases same : q = p
  · rw [same, node_modify_self, keeps]
  · rw [node_modify_of_ne same]

theorem content_reparent (q : ℕ) : ((reparent T p parent).node q).content = (T.node q).content := by
  rw [reparent]
  split_ifs
  · exact content_modify (fun _ => content_setParent) q
  · rfl

theorem content_relink (q : ℕ) : ((relink T side parent x y).node q).content = (T.node q).content := by
  rw [relink]
  split_ifs
  · rfl
  · exact content_modify (fun _ => content_setChild) q
  · exact content_modify (fun _ => content_setChild) q

/-- Keys, values and colors stay where they are, in every heap. -/
theorem content_rotate (q : ℕ) : ((rotate T side x).node q).content = (T.node q).content := by
  rw [rotate, content_modify fun _ => content_setParent, content_modify fun _ => content_setChild,
    content_relink, content_modify fun _ => content_setParent, content_reparent,
    content_modify fun _ => content_setChild]

theorem node_eq (load : ∀ slot : Slot ℕ, slot.In [p] → T'.load slot = T.load slot)
    (content : (T'.node p).content = (T.node p).content) : T'.node p = T.node p := by
  have self : p ∈ [p] := List.mem_singleton.mpr rfl
  have left : (T'.node p).left = (T.node p).left := load (.child .left p) self
  have right : (T'.node p).right = (T.node p).right := load (.child .right p) self
  have parent : (T'.node p).parent = (T.node p).parent := load (.parent p) self
  simp only [RbtreeNode.content, Prod.mk.injEq] at content
  obtain ⟨color, key, value⟩ := content
  cases isNode : T'.node p
  cases isNode' : T.node p
  simp_all only

/-- Pointers and contents are all there is. -/
theorem rbtree_eq (nil : T'.nil = T.nil) (load : T'.load = T.load)
    (content : ∀ p, (T'.node p).content = (T.node p).content) : T' = T := by
  have root : T'.root = T.root := congrFun load .root
  have node : T'.node = T.node := funext fun p => node_eq (fun slot _ => congrFun load slot) (content p)
  cases T'
  cases T
  cases root
  cases nil
  cases node
  rfl

end Content

section Rotations

/-- What a rotation of `x` to the side keeps, and where the new top is. -/
structure Preserved (T T' : Rbtree) (nodes : List ℕ) (side : Side) (x : ℕ) : Prop where
  linked : WellLinked T' nodes
  content : ∀ p, (T'.node p).content = (T.node p).content
  pointers : ∀ slot, ¬ Edge T.load T.nil (above T.load T.nil x) slot →
    ¬ Edge T.load T.nil (.child side.other x) slot →
    ¬ Edge T.load T.nil (.child side ((T.node x).child side.other)) slot → T'.load slot = T.load slot
  top : T'.load (above T.load T.nil x) = (T.node x).child side.other
  nil : T'.nil = T.nil
  sentinel : T'.node T.nil = T.node T.nil

theorem rotate_preserved (linked : WellLinked T nodes) (member : x ∈ nodes)
    (real : (T.node x).child side.other ≠ T.nil) :
    Preserved T (rotate T side x) nodes side x := by
  obtain ⟨t, isLinked, rfl⟩ := linked
  obtain ⟨up, down, a, b, d, focus⟩ := isLinked.exists_focus member real
  have hangs := focus.hangs
  have load := load_rotate hangs
  constructor
  case linked =>
    obtain ⟨t', isLinked', order⟩ := isLinked.rotate member real
    refine ⟨t', ?_, order⟩
    rwa [load, nil_rotate]
  case content => exact content_rotate
  case pointers =>
    intro slot outer middle inner
    rw [load]
    exact hangs.rotate_edges outer middle inner
  case top =>
    rw [load, hangs.around.above]
    exact hangs.around.turned.top
  case nil => exact nil_rotate
  case sentinel =>
    apply node_eq ?_ (content_rotate T.nil)
    intro slot isNil
    rw [load]
    exact hangs.rotate_nil isNil

/-- The rotation of the new top to the other side restores the heap. -/
theorem rotate_back (side : Side) (linked : WellLinked T nodes) (member : x ∈ nodes)
    (real : (T.node x).child side.other ≠ T.nil) :
    rotate (rotate T side x) side.other ((T.node x).child side.other) = T := by
  obtain ⟨t, isLinked, rfl⟩ := linked
  obtain ⟨up, down, a, b, d, focus⟩ := isLinked.exists_focus member real
  have hangs := focus.hangs
  have load := load_rotate hangs
  have flipped := hangs.rotate
  have same : (rotate T side x).nil = T.nil := nil_rotate
  rw [← LinkedTree.join_join_other, ← load, ← same] at flipped
  apply rbtree_eq
  · rw [nil_rotate, nil_rotate]
  · calc (rotate (rotate T side x) side.other (T.load (.child side.other x))).load
      _ = LinkedTree.rotate (rotate T side x).load (rotate T side x).nil side.other
          (T.load (.child side.other x)) :=
        load_rotate flipped
      _ = LinkedTree.rotate (LinkedTree.rotate T.load T.nil side x) T.nil side.other
          (T.load (.child side.other x)) := by
        rw [load, nil_rotate]
      _ = T.load := hangs.rotate_rotate
  · intro p
    rw [content_rotate, content_rotate]

/-- In every well linked heap, whatever the colors and `nil` are, a rotation keeps the links, the order and the
contents, changes three edges and nothing else, and is undone by the rotation back. -/
theorem rbtree_rotate_preserves (linked : WellLinked T nodes) (member : x ∈ nodes) :
    ((T.node x).right ≠ T.nil → Preserved T (rbtree_left_rotate T x) nodes .left x ∧
      rbtree_right_rotate (rbtree_left_rotate T x) (T.node x).right = T) ∧
    ((T.node x).left ≠ T.nil → Preserved T (rbtree_right_rotate T x) nodes .right x ∧
      rbtree_left_rotate (rbtree_right_rotate T x) (T.node x).left = T) := by
  constructor
  · intro real
    exact ⟨rotate_preserved linked member real, rotate_back .left linked member real⟩
  · intro real
    exact ⟨rotate_preserved linked member real, rotate_back .right linked member real⟩

/-- A red node below a red one, and a `nil` that is neither black nor empty. -/
def redBelowRed : Rbtree where
  root := 1
  nil := 0
  node := fun
    | 0 => ⟨7, 2, 3, 3, 5, 6⟩
    | 1 => ⟨RED, 2, 0, 0, 10, 100⟩
    | 2 => ⟨RED, 0, 3, 1, 30, 300⟩
    | 3 => ⟨BLACK, 0, 0, 2, 20, 200⟩
    | p => ⟨0, p, p, p, 0, 0⟩

theorem redBelowRed_linked : WellLinked redBelowRed [1, 3, 2] :=
  ⟨.node 1 .nil (.node 2 (.node 3 .nil .nil) .nil),
    ⟨by simp [LinkedBelow, Rbtree.load, RbtreeNode.child, redBelowRed], by decide⟩, rfl⟩

theorem rbtree_rotate_preserves_red :
    Preserved redBelowRed (rbtree_left_rotate redBelowRed 1) [1, 3, 2] .left 1 ∧
    rbtree_right_rotate (rbtree_left_rotate redBelowRed 1) 2 = redBelowRed :=
  (rbtree_rotate_preserves redBelowRed_linked (by decide)).1 (by decide)

end Rotations

section Balancing

open RedBlack

variable {path : TreePath Item}

/-- The nodes of a colored tree. -/
def shape : ColorTree Item → BinaryTree ℕ
  | .leaf => .nil
  | .node _ left item right => .node item.ptr (shape left) (shape right)

theorem inorder_shape (t : ColorTree Item) : inorder (shape t) = treePtrs t := by
  induction t with
  | leaf => rfl
  | node c left item right ihl ihr =>
    simp only [shape, inorder, ihl, ihr, treePtrs, ColorTree.inorder, List.map_append, List.map_cons]

theorem At.linkedBelow {t : ColorTree Item} (tree : At T.node T.nil parent t)
    (top : T.load down = ptrOf T.nil t) (nonnil : T.nil ∉ treePtrs t) :
    LinkedBelow T.load T.nil parent down (shape t) := by
  induction t generalizing parent down with
  | leaf => exact top
  | node c left item right ihl ihr =>
    obtain ⟨cell, lower, upper⟩ := tree
    obtain ⟨notRoot, notLeft, notRight⟩ : T.nil ≠ item.ptr ∧ T.nil ∉ treePtrs left ∧
      T.nil ∉ treePtrs right := by
      rw [show ColorTree.node c left item right = ColorTree.join .left c left item right from rfl,
        mem_treePtrs_join] at nonnil
      tauto
    exact ⟨top, notRoot.symm, cell.parent, ihl lower cell.near notLeft, ihr upper cell.far notRight⟩

/-- What balancing holds in memory at every step is a well linked heap. -/
theorem Holds.wellLinked {t : ColorTree Item} (holds : Holds T path t) :
    WellLinked T (treePtrs (path.fill t)) := by
  have whole := holds_fill.mpr holds
  refine ⟨shape (path.fill t), ⟨whole.tree.linkedBelow whole.root ?_, ?_⟩, inorder_shape _⟩
  · exact whole.nonnil_tree
  · rw [inorder_shape]
    exact holds.nodup

end Balancing

end LinuxZero.Trees
