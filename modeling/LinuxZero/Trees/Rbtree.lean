import LinuxZero.Lib.Computes
import LinuxZero.Lib.RedBlack
import Mathlib.Logic.Function.Basic

/-! # The red-black tree

`rbtree/main.cpp`: nodes with pointers to their children and their parent, and a node `nil` in the place of
every missing one, whose parent is set like that of any other. The functions come in mirrored halves, so
that each of them has a side; the loops have a bound on their rounds.
-/

namespace LinuxZero.Trees

def RED : UInt8 := 1

def BLACK : UInt8 := 2

/-- `rbtree_node`; pointers are numbers. -/
structure RbtreeNode where
  color : UInt8
  right : ℕ
  left : ℕ
  parent : ℕ
  key : ℤ
  value : ℕ
deriving DecidableEq, Repr

/-- `rbtree`, with the memory that its nodes are in. -/
structure Rbtree where
  root : ℕ
  nil : ℕ
  node : ℕ → RbtreeNode

def RbtreeNode.child (side : Side) (node : RbtreeNode) : ℕ :=
  match side with
  | .left => node.left
  | .right => node.right

def RbtreeNode.setChild (side : Side) (p : ℕ) (node : RbtreeNode) : RbtreeNode :=
  match side with
  | .left => { node with left := p }
  | .right => { node with right := p }

def RbtreeNode.setParent (p : ℕ) (node : RbtreeNode) : RbtreeNode := { node with parent := p }

def RbtreeNode.setColor (color : UInt8) (node : RbtreeNode) : RbtreeNode := { node with color := color }

namespace Rbtree

variable (T : Rbtree)

def modify (p : ℕ) (f : RbtreeNode → RbtreeNode) : Rbtree :=
  { T with node := Function.update T.node p (f (T.node p)) }

def setColor (p : ℕ) (color : UInt8) : Rbtree := T.modify p (.setColor color)

end Rbtree

variable (T : Rbtree)

/-- `x` or its leftmost descendant. -/
def miniLoop : Loop ℕ ℕ := fun x =>
  if (T.node x).left ≠ T.nil then .inl (T.node x).left else .inr x

/-- `rbtree_mini`. -/
def rbtree_mini (fuel x : ℕ) : Option ℕ := Loop.run (miniLoop T) fuel x

/-- The loop of `rbtree_successor`, from `x` and its parent on. -/
def successorLoop : Loop (ℕ × ℕ) ℕ := fun (x, y) =>
  if y ≠ T.nil ∧ x = (T.node y).right then .inl (y, (T.node y).parent) else .inr y

/-- `rbtree_successor`. -/
def rbtree_successor (fuel x : ℕ) : Option ℕ :=
  if (T.node x).right ≠ T.nil then rbtree_mini T fuel (T.node x).right
  else Loop.run (successorLoop T) fuel (x, (T.node x).parent)

/-- `new` takes the place of `old` below its parent; the side is the one that is looked at first. -/
def relink (side : Side) (parent old new : ℕ) : Rbtree :=
  if parent = T.nil then { T with root := new }
  else if old = (T.node parent).child side then T.modify parent (.setChild side new)
  else T.modify parent (.setChild side.other new)

/-- A node that is not `nil` gets a parent. -/
def reparent (p parent : ℕ) : Rbtree :=
  if p ≠ T.nil then T.modify p (.setParent parent) else T

/-- The rotation of `x` to the side. -/
def rotate (side : Side) (x : ℕ) : Rbtree :=
  let y := (T.node x).child side.other
  let T := T.modify x (.setChild side.other ((T.node y).child side))
  let T := reparent T ((T.node y).child side) x
  let T := T.modify y (.setParent (T.node x).parent)
  let T := relink T side (T.node x).parent x y
  let T := T.modify y (.setChild side x)
  T.modify x (.setParent y)

/-- `rbtree_left_rotate`. -/
def rbtree_left_rotate (x : ℕ) : Rbtree := rotate T .left x

/-- `rbtree_right_rotate`. -/
def rbtree_right_rotate (y : ℕ) : Rbtree := rotate T .right y

/-- A round of `rbtree_insert_fixup` when the parent of `z` is the child of its own parent on the side. -/
def insertFixupRound (side : Side) (z : ℕ) : Rbtree × ℕ :=
  let parent := (T.node z).parent
  let grandparent := (T.node parent).parent
  let y := (T.node grandparent).child side.other
  if (T.node y).color = RED then
    (((T.setColor parent BLACK).setColor y BLACK).setColor grandparent RED, grandparent)
  else
    let (T, z) := if z = (T.node parent).child side.other then (rotate T side parent, parent) else (T, z)
    let T := T.setColor (T.node z).parent BLACK
    let T := T.setColor (T.node (T.node z).parent).parent RED
    (rotate T side.other (T.node (T.node z).parent).parent, z)

/-- The loop of `rbtree_insert_fixup`. -/
def insertFixupLoop : Loop (Rbtree × ℕ) Rbtree := fun (T, z) =>
  let parent := (T.node z).parent
  if (T.node parent).color = RED then
    if parent = (T.node (T.node parent).parent).left then .inl (insertFixupRound T .left z)
    else .inl (insertFixupRound T .right z)
  else .inr T

/-- `rbtree_insert_fixup`. -/
def rbtree_insert_fixup (fuel z : ℕ) : Option Rbtree :=
  (Loop.run insertFixupLoop fuel (T, z)).map fun T => T.setColor T.root BLACK

/-- The search of `rbtree_insert`: the node below which the key belongs, or nothing if the key is there. -/
def insertSearch (key : ℤ) : Loop (ℕ × ℕ) (Option ℕ) := fun (y, x) =>
  if x ≠ T.nil then
    if key < (T.node x).key then .inl (x, (T.node x).left)
    else if key > (T.node x).key then .inl (x, (T.node x).right)
    else .inr none
  else .inr (some y)

/-- `z` becomes a child of `y`, or the root. -/
def linkBelow (z y : ℕ) : Rbtree :=
  if y = T.nil then { T with root := z }
  else if (T.node z).key < (T.node y).key then T.modify y (.setChild .left z)
  else T.modify y (.setChild .right z)

/-- The red leaf `z` below `y`. -/
def insertBelow (z y : ℕ) : Rbtree :=
  let T := linkBelow (T.modify z (.setParent y)) z y
  ((T.modify z (.setChild .left T.nil)).modify z (.setChild .right T.nil)).setColor z RED

/-- `rbtree_insert`. -/
def rbtree_insert (fuel z : ℕ) : Option Rbtree :=
  (Loop.run (insertSearch T (T.node z).key) fuel (T.nil, T.root)).bind fun
    | none => some T
    | some y => rbtree_insert_fixup (insertBelow T z y) fuel z

/-- A round of `rbtree_delete_fixup` at first: if the sibling `w` of `x` is red, the parent is rotated, and `x`
has another sibling. -/
def redSibling (side : Side) (x w : ℕ) : Rbtree × ℕ :=
  if (T.node w).color = RED then
    let T := rotate ((T.setColor w BLACK).setColor (T.node x).parent RED) side (T.node x).parent
    (T, (T.node (T.node x).parent).child side.other)
  else (T, w)

/-- If the far child of the sibling is black, the sibling is rotated. -/
def redNearChild (side : Side) (x w : ℕ) : Rbtree × ℕ :=
  if (T.node ((T.node w).child side.other)).color = BLACK then
    let T := rotate ((T.setColor ((T.node w).child side) BLACK).setColor w RED) side.other w
    (T, (T.node (T.node x).parent).child side.other)
  else (T, w)

/-- The sibling takes the color and the place of the parent. -/
def redFarChild (side : Side) (x w : ℕ) : Rbtree :=
  let T := T.setColor w (T.node (T.node x).parent).color
  let T := T.setColor (T.node x).parent BLACK
  let T := T.setColor ((T.node w).child side.other) BLACK
  rotate T side (T.node x).parent

/-- What `rbtree_delete_fixup` does with a black sibling. -/
def blackSibling (side : Side) (x w : ℕ) : Rbtree × ℕ :=
  if (T.node ((T.node w).child side)).color = BLACK ∧
    (T.node ((T.node w).child side.other)).color = BLACK then
    (T.setColor w RED, (T.node x).parent)
  else
    let (T, w) := redNearChild T side x w
    let T := redFarChild T side x w
    (T, T.root)

/-- A round of `rbtree_delete_fixup` when `x` is the child of its parent on the side. -/
def deleteFixupRound (side : Side) (x : ℕ) : Rbtree × ℕ :=
  let (T, w) := redSibling T side x ((T.node (T.node x).parent).child side.other)
  blackSibling T side x w

/-- The loop of `rbtree_delete_fixup`. -/
def deleteFixupLoop : Loop (Rbtree × ℕ) (Rbtree × ℕ) := fun (T, x) =>
  if x ≠ T.root ∧ (T.node x).color = BLACK then
    if x = (T.node (T.node x).parent).left then .inl (deleteFixupRound T .left x)
    else .inl (deleteFixupRound T .right x)
  else .inr (T, x)

/-- `rbtree_delete_fixup`. -/
def rbtree_delete_fixup (fuel x : ℕ) : Option Rbtree :=
  (Loop.run deleteFixupLoop fuel (T, x)).map fun (T, x) => T.setColor x BLACK

/-- The part of `rbtree_delete` that takes `y` out: its only child, or `nil`, takes its place. -/
def unlink (y : ℕ) : Rbtree × ℕ :=
  let x := if (T.node y).left ≠ T.nil then (T.node y).left
    else if (T.node y).right ≠ T.nil then (T.node y).right
    else T.nil
  let T := T.modify x (.setParent (T.node y).parent)
  (relink T .left (T.node y).parent y x, x)

/-- The key and the value of `y` move to `z`. -/
def moveContent (z y : ℕ) : Rbtree :=
  if y ≠ z then T.modify z fun node =>
    { node with key := (T.node y).key, value := (T.node y).value } else T

/-- `rbtree_delete`: the node that has been taken out, and the tree. -/
def rbtree_delete (fuel z : ℕ) : Option (ℕ × Rbtree) :=
  (if (T.node z).left = T.nil ∨ (T.node z).right = T.nil then some z
    else rbtree_successor T fuel z).bind fun y =>
    let (T, x) := unlink T y
    let T := moveContent T z y
    if (T.node y).color = BLACK then (rbtree_delete_fixup T fuel x).map fun T => (y, T)
    else some (y, T)

/-- The loop of `rbtree_search`. -/
def searchLoop (key : ℤ) : Loop ℕ ℕ := fun node =>
  if node ≠ T.nil then
    if key < (T.node node).key then .inl (T.node node).left
    else if key > (T.node node).key then .inl (T.node node).right
    else .inr node
  else .inr T.nil

/-- `rbtree_search`. -/
def rbtree_search (fuel : ℕ) (key : ℤ) : Option ℕ := Loop.run (searchLoop T key) fuel T.root

/-- `rbtree_traversal`: the keys and colors in the order of its output. -/
def rbtree_traversal : ℕ → ℕ → Option (List (ℤ × UInt8))
  | 0, _ => none
  | fuel + 1, node =>
    if node ≠ T.nil then
      (rbtree_traversal fuel (T.node node).left).bind fun before =>
        (rbtree_traversal fuel (T.node node).right).map fun behind =>
          before ++ ((T.node node).key, (T.node node).color) :: behind
    else some []

end LinuxZero.Trees
