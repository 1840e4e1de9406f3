import LinuxZero.Trees.Rbtree
import Mathlib.Data.List.Nodup

/-! # Trees in memory

The nodes in memory hold a tree with a hole and the tree in the hole. A tree knows its nodes by their
addresses; every node holds the addresses of its children and of its parent. What is written to other
addresses does not matter.
-/

namespace LinuxZero.Trees

open RedBlack

/-- What a node of a tree is: where it is, and what it stands for. -/
structure Item where
  ptr : ℕ
  key : ℤ
  value : ℕ
deriving DecidableEq, Repr

def byte : Color → UInt8
  | .red => RED
  | .black => BLACK

theorem byte_eq_red {c : Color} : byte c = RED ↔ c = .red := by cases c <;> decide

theorem byte_eq_black {c : Color} : byte c = BLACK ↔ c = .black := by cases c <;> decide

/-- The address of a tree. -/
def ptrOf (nil : ℕ) : ColorTree Item → ℕ
  | .leaf => nil
  | .node _ _ item _ => item.ptr

/-- The address of the parent of the hole. -/
def parentOf (nil : ℕ) : TreePath Item → ℕ
  | [] => nil
  | frame :: _ => frame.item.ptr

/-- The address of the whole tree. -/
def rootOf : TreePath Item → ℕ → ℕ
  | [], hole => hole
  | frame :: path, _ => rootOf path frame.item.ptr

def treePtrs (t : ColorTree Item) : List ℕ := t.inorder.map Item.ptr

def pathPtrs (path : TreePath Item) : List ℕ := (path.before ++ path.after).map Item.ptr

/-- A node holds this; `near` is the child on the side. -/
structure IsCell (node : RbtreeNode) (color : Color) (item : Item) (parent : ℕ) (side : Side)
    (near far : ℕ) : Prop where
  color : node.color = byte color
  key : node.key = item.key
  value : node.value = item.value
  parent : node.parent = parent
  near : node.child side = near
  far : node.child side.other = far

def At (node : ℕ → RbtreeNode) (nil : ℕ) : ℕ → ColorTree Item → Prop
  | _, .leaf => True
  | parent, .node color left item right =>
    IsCell (node item.ptr) color item parent .left (ptrOf nil left) (ptrOf nil right) ∧
      At node nil item.ptr left ∧ At node nil item.ptr right

def PathAt (node : ℕ → RbtreeNode) (nil : ℕ) : TreePath Item → ℕ → Prop
  | [], _ => True
  | frame :: path, hole =>
    IsCell (node frame.item.ptr) frame.color frame.item (parentOf nil path) frame.side hole
      (ptrOf nil frame.sibling) ∧
      At node nil frame.item.ptr frame.sibling ∧ PathAt node nil path frame.item.ptr

section Node

variable {node : RbtreeNode} {side side' : Side} {p : ℕ}

@[simp] theorem child_setChild : (node.setChild side p).child side = p := by cases side <;> rfl

theorem child_setChild_other (ne : side' ≠ side) : (node.setChild side p).child side' =
    node.child side' := by
  cases side <;> cases side' <;> first | rfl | exact absurd rfl ne

@[simp] theorem parent_setChild : (node.setChild side p).parent = node.parent := by cases side <;> rfl

@[simp] theorem child_setParent : (node.setParent p).child side = node.child side := by cases side <;> rfl

@[simp] theorem child_setColor {c : UInt8} : (node.setColor c).child side =
    node.child side := by cases side <;> rfl

namespace IsCell

variable {c c' : Color} {item : Item} {parent near far : ℕ}

theorem flip (cell : IsCell node c item parent side near far) :
    IsCell node c item parent side.other far near :=
  ⟨cell.color, cell.key, cell.value, cell.parent, cell.far, (Side.other_other side).symm ▸ cell.near⟩

theorem flip_iff : IsCell node c item parent side.other far near ↔
    IsCell node c item parent side near far :=
  ⟨fun cell => Side.other_other side ▸ cell.flip, flip⟩

theorem setParent (cell : IsCell node c item parent side near far) (p : ℕ) :
    IsCell (node.setParent p) c item p side near far :=
  ⟨cell.color, cell.key, cell.value, rfl, child_setParent.trans cell.near, child_setParent.trans cell.far⟩

theorem setColor (cell : IsCell node c item parent side near far) (c' : Color) :
    IsCell (node.setColor (byte c')) c' item parent side near far :=
  ⟨rfl, cell.key, cell.value, cell.parent, child_setColor.trans cell.near, child_setColor.trans cell.far⟩

theorem setNear (cell : IsCell node c item parent side near far) (p : ℕ) :
    IsCell (node.setChild side p) c item parent side p far := by
  refine ⟨?_, ?_, ?_, ?_, child_setChild, (child_setChild_other side.other_ne).trans cell.far⟩
  · cases side <;> exact cell.color
  · cases side <;> exact cell.key
  · cases side <;> exact cell.value
  · cases side <;> exact cell.parent

theorem setFar (cell : IsCell node c item parent side near far) (p : ℕ) :
    IsCell (node.setChild side.other p) c item parent side near p :=
  flip_iff.mp (cell.flip.setNear p)

end IsCell

end Node

section Layout

variable {node node' : ℕ → RbtreeNode} {nil parent : ℕ} {side : Side} {c : Color}
  {near far t : ColorTree Item} {item : Item}
  {path : TreePath Item} {f : Frame Item}

@[simp] theorem ptrOf_join : ptrOf nil (ColorTree.join side c near item far) =
    item.ptr := by cases side <;> rfl

@[simp] theorem ptrOf_paint : ptrOf nil (t.paint c) = ptrOf nil t := by cases t <;> rfl

theorem at_join : At node nil parent (ColorTree.join side c near item far) ↔
    IsCell (node item.ptr) c item parent side (ptrOf nil near) (ptrOf nil far) ∧
      At node nil item.ptr near ∧ At node nil item.ptr far := by
  cases side with
  | left => exact Iff.rfl
  | right =>
    rw [← IsCell.flip_iff]
    exact and_congr_right' And.comm

theorem mem_treePtrs_join {s : Side} {p : ℕ} : p ∈ treePtrs (ColorTree.join s c near item far) ↔
    p = item.ptr ∨ p ∈ treePtrs near ∨ p ∈ treePtrs far := by
  cases s <;> simp only [treePtrs, ColorTree.join, ColorTree.inorder, List.map_append,
    List.map_cons, List.mem_append, List.mem_cons] <;>
    tauto

theorem mem_treePtrs_fill {p : ℕ} : p ∈ treePtrs (path.fill t) ↔ p ∈ treePtrs t ∨ p ∈ pathPtrs path := by
  simp only [treePtrs, pathPtrs, TreePath.inorder_fill, List.map_append, List.mem_append]
  tauto

theorem mem_pathPtrs_cons {p : ℕ} : p ∈ pathPtrs (f :: path) ↔
    p = f.item.ptr ∨ p ∈ treePtrs f.sibling ∨ p ∈ pathPtrs path := by
  obtain ⟨side, c, item, sibling⟩ := f
  cases side <;> simp only [pathPtrs, treePtrs, TreePath.before, TreePath.after, List.map_append,
    List.map_cons, List.mem_append, List.mem_cons, List.map_nil, List.not_mem_nil, or_false] <;>
    tauto

theorem root_mem {left right : ColorTree Item} : item.ptr ∈ treePtrs (.node c left item right) :=
  mem_treePtrs_join (s := .left) |>.mpr (Or.inl rfl)

theorem ptrOf_mem (nonempty : t ≠ .leaf) : ptrOf nil t ∈ treePtrs t := by
  cases t with
  | leaf => exact absurd rfl nonempty
  | node c left item right => exact root_mem

/-- The address of a tree is one of its nodes or `nil`. -/
theorem ptrOf_ne {p : ℕ} (outside : p ∉ treePtrs t) (nonnil : p ≠ nil) : ptrOf nil t ≠ p := by
  rintro rfl
  cases t with
  | leaf => exact nonnil rfl
  | node c left item right => exact outside (ptrOf_mem nofun)

theorem ptrOf_eq_nil_iff (nonnil : nil ∉ treePtrs t) : ptrOf nil t = nil ↔ t = .leaf := by
  constructor
  · intro equal
    by_contra nonempty
    exact nonnil (equal ▸ ptrOf_mem nonempty)
  · rintro rfl
    rfl

/-- The nodes of a tree are distinct. -/
theorem nodup_join {s : Side} : (treePtrs (ColorTree.join s c near item far)).Nodup ↔
    (item.ptr ∉ treePtrs near ∧ item.ptr ∉ treePtrs far) ∧
    ((treePtrs near).Nodup ∧ (treePtrs far).Nodup) ∧
      (treePtrs near).Disjoint (treePtrs far) := by
  have symm : (treePtrs far).Disjoint (treePtrs near) ↔ (treePtrs near).Disjoint (treePtrs far) :=
    List.disjoint_comm
  cases s <;> simp only [treePtrs] at symm ⊢ <;> simp only [ColorTree.join, ColorTree.inorder,
    List.map_append, List.map_cons, List.nodup_append', List.nodup_cons,
    List.disjoint_cons_right] <;> tauto

theorem nodup_fill : (treePtrs (path.fill t)).Nodup ↔
    ((treePtrs t).Nodup ∧ (pathPtrs path).Nodup) ∧ (treePtrs t).Disjoint (pathPtrs path) := by
  have moved : (treePtrs (path.fill t)).Perm (treePtrs t ++ pathPtrs path) := by
    simp only [treePtrs, pathPtrs, TreePath.inorder_fill, List.map_append, List.append_assoc]
    exact List.perm_append_comm_assoc ..
  rw [moved.nodup_iff, List.nodup_append']
  tauto

/-- Only the nodes of the tree matter. -/
theorem At.frame (tree : At node nil parent t) (same : ∀ p ∈ treePtrs t, node' p = node p) :
    At node' nil parent t := by
  induction t generalizing parent with
  | leaf => trivial
  | node c left item right ihl ihr =>
    have mem : ∀ p, p ∈ treePtrs (.node c left item right) ↔ p = item.ptr ∨ p ∈ treePtrs left ∨
      p ∈ treePtrs right :=
      fun p => mem_treePtrs_join (s := .left)
    obtain ⟨cell, first, second⟩ := tree
    refine ⟨?_, ihl first fun p member => same p ?_, ihr second fun p member => same p ?_⟩
    · rwa [same item.ptr ((mem _).mpr (Or.inl rfl))]
    · exact (mem p).mpr (Or.inr (Or.inl member))
    · exact (mem p).mpr (Or.inr (Or.inr member))

theorem PathAt.frame {hole : ℕ} (above : PathAt node nil path hole)
    (same : ∀ p ∈ pathPtrs path, node' p = node p) :
    PathAt node' nil path hole := by
  induction path generalizing hole with
  | nil => trivial
  | cons frame path ih =>
    obtain ⟨cell, sibling, rest⟩ := above
    refine ⟨?_, sibling.frame fun p member => same p ?_, ih rest fun p member => same p ?_⟩
    · rwa [same _ (mem_pathPtrs_cons.mpr (Or.inl rfl))]
    · exact mem_pathPtrs_cons.mpr (Or.inr (Or.inl member))
    · exact mem_pathPtrs_cons.mpr (Or.inr (Or.inr member))

end Layout

/-- The memory holds the tree with the hole and the tree in the hole, and `nil` is black. -/
structure Holds (T : Rbtree) (path : TreePath Item) (t : ColorTree Item) : Prop where
  root : T.root = rootOf path (ptrOf T.nil t)
  above : PathAt T.node T.nil path (ptrOf T.nil t)
  tree : At T.node T.nil (parentOf T.nil path) t
  nodup : (treePtrs (path.fill t)).Nodup
  nonnil : T.nil ∉ treePtrs (path.fill t)
  black : (T.node T.nil).color = BLACK

end LinuxZero.Trees
