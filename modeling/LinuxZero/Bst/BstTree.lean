import LinuxZero.Lib.Computes
import Mathlib.Data.Int.Notation
import Mathlib.Logic.Function.Basic

/-! # The binary search tree

`tree/bst_tree/main.cpp`: nodes with pointers to their children and their parent, and null for every missing
one. The functions that go down the tree call themselves, and have a bound on the depth of these calls; an
access to a node that is not allocated has no result.
-/

namespace LinuxZero.Bst

/-- `tree_node`; pointers are numbers, and null is 0. -/
structure TreeNode where
  key : ℤ
  data : UInt8
  p : ℕ
  l : ℕ
  r : ℕ
deriving DecidableEq, Repr

/-- The nodes that are allocated. -/
abbrev Heap := ℕ → Option TreeNode

/-- `bst_tree`, with the memory that its nodes are in. -/
structure BstTree where
  root : ℕ
  heap : Heap

def Heap.modify (M : Heap) (x : ℕ) (f : TreeNode → TreeNode) : Heap := Function.update M x ((M x).map f)

/-- Both functions of the name: the shorter one has no links. `malloc` has returned `node`. -/
def create_node (M : Heap) (node : ℕ) (key : ℤ) (value : UInt8) (p l r : ℕ) : Heap :=
  Function.update M node (some ⟨key, value, p, l, r⟩)

def release_node (M : Heap) (node : ℕ) : Option Heap :=
  if node ≠ 0 then (M node).map fun _ => Function.update M node none
  else some M

/-- The node that is returned, and the memory; `malloc` is what the allocation returns if there is one. -/
def insert_node (malloc : ℕ) : ℕ → Heap → ℕ → ℤ → UInt8 → Option (ℕ × Heap)
  | 0, _, _, _, _ => none
  | fuel + 1, M, node, key, value =>
    if node = 0 then some (malloc, create_node M malloc key value 0 0 0)
    else do
      let n ← M node
      if n.key = key then pure (node, M.modify node fun n => { n with data := value })
      else if n.key > key then
        if n.l = 0 then pure (malloc, (create_node M malloc key value node 0 0).modify node fun n =>
          { n with l := malloc })
        else insert_node malloc fuel M n.l key value
      else
        if n.r = 0 then pure (malloc, (create_node M malloc key value node 0 0).modify node fun n =>
          { n with r := malloc })
        else insert_node malloc fuel M n.r key value

def bst_tree_insert (malloc fuel : ℕ) (tree : BstTree) (key : ℤ) (value : UInt8) : Option (ℕ × BstTree) :=
  if tree.root = 0 then some (malloc, ⟨malloc, create_node tree.heap malloc key value 0 0 0⟩)
  else do
    let (node, M) ← insert_node malloc fuel tree.heap tree.root key value
    pure (node, { tree with heap := M })

def find_node : ℕ → Heap → ℕ → ℤ → Option ℕ
  | 0, _, _, _ => none
  | fuel + 1, M, root, key =>
    if root = 0 then some root
    else do
      let n ← M root
      if n.key = key then pure root
      else if n.key > key then find_node fuel M n.l key
      else find_node fuel M n.r key

def bst_find_node (fuel : ℕ) (tree : BstTree) (key : ℤ) : Option ℕ :=
  if tree.root = 0 then some 0
  else find_node fuel tree.heap tree.root key

/-- The root of what is left, and the memory. -/
def delete_node : ℕ → Heap → ℕ → ℤ → Option (ℕ × Heap)
  | 0, _, _, _ => none
  | fuel + 1, M, root, key =>
    if root = 0 then some (0, M)
    else do
      let n ← M root
      if n.key = key then
        if n.l = 0 ∧ n.r = 0 then
          let M ← release_node M root
          pure (0, M)
        else if n.l ≠ 0 ∧ n.r = 0 then
          let (node, M) ← delete_node fuel M n.l key
          let M ← release_node M root
          pure (node, M)
        else if n.l = 0 ∧ n.r ≠ 0 then
          let right ← M n.r
          let (node, M) ← delete_node fuel M n.r right.key
          let M ← release_node M root
          pure (node, M)
        else
          let right ← M n.r
          let (node, M) ← delete_node fuel M n.r right.key
          let M ← release_node M root
          pure (node, M)
      else if n.key > key then
        let (l, M) ← delete_node fuel M n.l key
        pure (root, M.modify root fun n => { n with l := l })
      else
        let (r, M) ← delete_node fuel M n.r key
        pure (root, M.modify root fun n => { n with r := r })

section Equations

variable {malloc fuel node root : ℕ} {M : Heap} {n : TreeNode} {key : ℤ} {value : UInt8}

theorem insert_node_eq (real : node ≠ 0) (held : M node = some n) :
    insert_node malloc (fuel + 1) M node key value =
    if n.key = key then some (node, M.modify node fun n => { n with data := value })
    else if n.key > key then
      if n.l = 0 then some (malloc, (create_node M malloc key value node 0 0).modify node fun n =>
      { n with l := malloc })
      else insert_node malloc fuel M n.l key value
    else
      if n.r = 0 then some (malloc, (create_node M malloc key value node 0 0).modify node fun n =>
      { n with r := malloc })
      else insert_node malloc fuel M n.r key value := by
  rw [insert_node, if_neg real, held]
  rfl

theorem find_node_eq (real : root ≠ 0) (held : M root = some n) : find_node (fuel + 1) M root key =
    if n.key = key then some root
    else if n.key > key then find_node fuel M n.l key
    else find_node fuel M n.r key := by
  rw [find_node, if_neg real, held]
  rfl

theorem delete_node_null : delete_node (fuel + 1) M 0 key = some (0, M) := if_pos rfl

/-- The four cases of the node with the key are two: what is called depends on the right child only. -/
theorem delete_node_here (real : root ≠ 0) (held : M root = some n) (here : n.key = key) :
    delete_node (fuel + 2) M root key =
      ((if n.r = 0 then delete_node (fuel + 1) M n.l key
        else (M n.r).bind fun right => delete_node (fuel + 1) M n.r right.key).bind fun result =>
        (release_node result.2 root).map fun M => (result.1, M)) := by
  rw [delete_node, if_neg real, held]
  by_cases left : n.l = 0 <;> by_cases right : n.r = 0
  · rw [if_pos right, left, delete_node_null]
    simp only [Option.bind_eq_bind, Option.bind_some, if_pos here, left, right, and_self, if_true,
      Option.map_eq_bind]
    rfl
  · rw [if_neg right]
    simp only [Option.bind_eq_bind, Option.bind_some, if_pos here, left, right, and_false, ne_eq,
      not_true, if_false, not_false_iff, and_true, if_true, Option.bind_assoc, Option.map_eq_bind]
    rfl
  · rw [if_pos right]
    simp only [Option.bind_eq_bind, Option.bind_some, if_pos here, left, right, false_and, ne_eq,
      not_false_iff, and_true, if_true, if_false, Option.map_eq_bind]
    rfl
  · rw [if_neg right]
    simp only [Option.bind_eq_bind, Option.bind_some, if_pos here, left, right, ne_eq,
      not_false_iff, and_false, and_true, if_false, Option.bind_assoc, Option.map_eq_bind]
    rfl

theorem delete_node_left (real : root ≠ 0) (held : M root = some n) (less : key < n.key) :
    delete_node (fuel + 1) M root key =
      (delete_node fuel M n.l key).map fun result =>
        (root, result.2.modify root fun n => { n with l := result.1 }) := by
  have differ : n.key ≠ key := by omega
  rw [delete_node, if_neg real, held]
  simp only [Option.bind_eq_bind, Option.bind_some, if_neg differ, if_pos less, Option.map_eq_bind]
  rfl

theorem delete_node_right (real : root ≠ 0) (held : M root = some n) (greater : n.key < key) :
    delete_node (fuel + 1) M root key =
      (delete_node fuel M n.r key).map fun result =>
        (root, result.2.modify root fun n => { n with r := result.1 }) := by
  have differ : n.key ≠ key := by omega
  have notLess : ¬ key < n.key := by omega
  rw [delete_node, if_neg real, held]
  simp only [Option.bind_eq_bind, Option.bind_some, if_neg differ, if_neg notLess, gt_iff_lt,
    Option.map_eq_bind]
  rfl

end Equations

end LinuxZero.Bst
