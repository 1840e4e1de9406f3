import LinuxZero.Bst.Deletion
import LinuxZero.Bst.Dictionary

/-! # Which deletions are right

A deletion takes out exactly the pair of its key when no node has the key, or the node that has it is a leaf.
A left child that takes the place of its parent still points at it, although it is released; with a right
child another key is lost, and the left subtree with it.
-/

namespace LinuxZero.Bst

open OrderedTree KeyHistory

/-- At `result` is a search tree without the key, and the nodes that are not in it any more are released. -/
def RemovesKey (M : Heap) (t : ItemTree) (key : ℤ) (result : ℕ) (M' : Heap) : Prop :=
  ∃ t', IsSearchTree ⟨result, M'⟩ t' ∧ pairs t' = (pairs t).filter (·.1 ≠ key) ∧
    ∀ x, M x ≠ none ∧ M' x = none ↔ x ∈ ptrs t ∧ x ∉ ptrs t'

/-- The node that has the key, if there is one, has no children. -/
def ChildlessAt (M : Heap) (t : ItemTree) (key : ℤ) : Prop :=
  ∀ x ∈ ptrs t, ∀ n, M x = some n → n.key = key → n.l = 0 ∧ n.r = 0

variable {M M' : Heap} {t left right : ItemTree} {item child : Item} {key : ℤ} {p x : ℕ}

section Kept

theorem deleted_of_missing (missing : find Item.key key t = none) : deleted key t = t := by
  induction t with
  | nil => rfl
  | node item left right ihl ihr =>
    rcases lt_trichotomy key item.key with less | same | greater
    · rw [deleted_left less, ihl (find_left less ▸ missing)]
    · exact nomatch (find_here same.symm).symm.trans missing
    · rw [deleted_right greater, ihr (find_right greater ▸ missing)]

/-- A leaf goes out of the order, and nothing else changes. -/
theorem deleted_leaf (reaches : Reaches Item.key key item .nil .nil t) :
    ∃ before after, inorder t = before ++ item :: after ∧ inorder (deleted key t) = before ++ after := by
  induction reaches with
  | here same => exact ⟨[], [], rfl, by rw [deleted_here_none same]; rfl⟩
  | @left b near far less below ih =>
    obtain ⟨before, after, order, order'⟩ := ih
    refine ⟨before, after ++ b :: inorder far, ?_, ?_⟩
    · rw [inorder, order, List.append_assoc, List.cons_append]
    · rw [deleted_left less, inorder, order', List.append_assoc]
  | @right b near far greater below ih =>
    obtain ⟨before, after, order, order'⟩ := ih
    refine ⟨inorder near ++ b :: before, after, ?_, ?_⟩
    · rw [inorder, order, List.append_assoc, List.cons_append]
    · rw [deleted_right greater, inorder, order', List.append_assoc, List.cons_append]

theorem parentsHold_leaf (reaches : Reaches Item.key key item .nil .nil t) (parents : ParentsHold M p t) :
    ParentsHold M p (deleted key t) := by
  induction reaches generalizing p with
  | here same =>
    rw [deleted_here_none same]
    trivial
  | left less below ih =>
    rw [deleted_left less]
    exact ⟨parents.1, ih parents.2.1, parents.2.2⟩
  | right greater below ih =>
    rw [deleted_right greater]
    exact ⟨parents.1, parents.2.1, ih parents.2.2⟩

end Kept

section Lost

/-- The left child that takes the place of its parent points at a released node. -/
theorem orphan (reaches : Reaches Item.key key item (.node child left right) .nil t)
    (ordered : Ordered Item.key t) (nodup : (ptrs t).Nodup) (outside : p ∉ ptrs t)
    (parents : ParentsHold M p t) : ¬ ParentsHold M p (deleted key t) := by
  induction reaches generalizing p with
  | here same =>
    obtain ⟨⟨lower, below⟩, -⟩ := ordered_node.mp ordered
    have missing : find Item.key key (.node child left right) = none :=
      lower.find_eq_none_iff.mpr fun b member => ((below b member).trans_eq same).ne
    rw [deleted_here_none same, deleted_of_missing missing]
    intro replaced
    have equal : item.ptr = p := Option.some.inj (parents.2.1.1.symm.trans replaced.1)
    exact outside (equal ▸ mem_ptrs_root)
  | left less below ih =>
    rw [deleted_left less]
    obtain ⟨⟨lowerNodup, notLeft⟩, -⟩ := nodup_ptrs_node.mp nodup
    exact fun kept => ih (ordered_node.mp ordered).1.1 lowerNodup notLeft parents.2.1 kept.2.1
  | right greater below ih =>
    rw [deleted_right greater]
    obtain ⟨-, ⟨upperNodup, notRight⟩, -⟩ := nodup_ptrs_node.mp nodup
    exact fun kept => ih (ordered_node.mp ordered).2.1 upperNodup notRight parents.2.2 kept.2.2

theorem length_deleted_root (root : root? t = some item) : (inorder (deleted item.key t)).length <
    (inorder t).length := by
  obtain ⟨left, right, rfl⟩ := exists_node root
  rw [inorder, List.length_append, List.length_cons]
  cases below : root? right with
  | none =>
    obtain rfl := root?_eq_none_iff.mp below
    rw [deleted_here_none rfl]
    have part := (deleted_sublist item.key left).length_le
    omega
  | some child =>
    rw [deleted_here_some rfl below]
    have part := (deleted_sublist child.key right).length_le
    omega

/-- With a right child two keys are lost at least. -/
theorem length_deleted_above (reaches : Reaches Item.key key item left right t)
    (root : root? right = some child) :
    (inorder (deleted key t)).length + 2 ≤ (inorder t).length := by
  induction reaches with
  | here same =>
    have shorter := length_deleted_root root
    rw [deleted_here_some same root, inorder, List.length_append, List.length_cons]
    omega
  | left less below ih =>
    rw [deleted_left less, inorder, inorder, List.length_append, List.length_append, List.length_cons]
    omega
  | right greater below ih =>
    rw [deleted_right greater, inorder, inorder, List.length_append, List.length_append,
      List.length_cons, List.length_cons]
    omega

end Lost

section Decision

variable {tree : BstTree} {result : ℕ}

theorem Deletes.parentsHold_iff (deletes : Deletes M key t M') : ParentsHold M' p (deleted key t) ↔
    ParentsHold M p (deleted key t) := by
  have kept : ∀ x ∈ ptrs (deleted key t), (M' x).map TreeNode.p = (M x).map TreeNode.p :=
    fun x member => deletes.parents x (deletes.linked.allocated member).2
  exact ⟨parentsHold_congr fun x member => (kept x member).symm, parentsHold_congr kept⟩

/-- Whether the deletion is right is a question about the tree that is left. -/
theorem IsSearchTree.removesKey_of_deleted (search : IsSearchTree tree t)
    (deletes : Deletes tree.heap key t M') (parents : ParentsHold tree.heap 0 (deleted key t))
    (order : pairs (deleted key t) = (pairs t).filter (·.1 ≠ key))
    (gone : ∀ x ∈ ptrs t, x ∉ ptrs (deleted key t) → M' x = none) :
    RemovesKey tree.heap t key (ptrOf (deleted key t)) M' := by
  refine ⟨deleted key t, ⟨⟨rfl, deletes.linked, ?_⟩, ?_, deletes.parentsHold_iff.mpr parents⟩,
    order, fun x => ?_⟩
  · exact (ptrs_deleted_sublist key t).nodup search.holds.nodup
  · exact search.ordered.sublist (deleted_sublist key t)
  constructor
  · rintro ⟨was, released⟩
    constructor
    · by_contra outside
      exact was ((deletes.outside x outside).symm.trans released)
    · exact fun member => (deletes.linked.allocated member).2 released
  · rintro ⟨member, outside⟩
    exact ⟨(search.holds.linked.allocated member).2, gone x member outside⟩

theorem pairs_filter (items : List Item) :
    (items.map fun item => (item.key, item.data)).filter (·.1 ≠ key) =
    (items.filter (·.key ≠ key)).map fun item => (item.key, item.data) := List.filter_map ..

theorem IsSearchTree.removes_missing (search : IsSearchTree tree t) (deletes : Deletes tree.heap key t M')
    (missing : find Item.key key t = none) : RemovesKey tree.heap t key (ptrOf (deleted key t)) M' := by
  have same := deleted_of_missing missing
  refine search.removesKey_of_deleted deletes ?_ ?_ fun x member outside => ?_
  · rw [same]
    exact search.parents
  · have others := search.ordered.find_eq_none_iff.mp missing
    rw [same, pairs, pairs_filter, List.filter_eq_self.mpr fun item member => decide_eq_true
      (others item member)]
  · exact absurd (same.symm ▸ member) outside

theorem IsSearchTree.removes_leaf (search : IsSearchTree tree t) (deletes : Deletes tree.heap key t M')
    (leaf : subtree Item.key key t = .node item .nil .nil) :
    RemovesKey tree.heap t key (ptrOf (deleted key t)) M' := by
  have reaches := reaches_of_subtree leaf
  have found : find Item.key key t = some item := congrArg root? leaf
  obtain ⟨before, after, order, order'⟩ := deleted_leaf reaches
  refine search.removesKey_of_deleted deletes (parentsHold_leaf reaches search.parents) ?_
    fun x member outside => ?_
  · have keys := search.ordered.nodup_keys
    rw [order, List.map_append, List.map_cons, List.nodup_middle, List.nodup_cons,
      key_of_find found, ← List.map_append] at keys
    have others : ∀ other ∈ before ++ after, other.key ≠ key := fun other member same =>
      keys.1 (same ▸ List.mem_map_of_mem member)
    rw [pairs, pairs, pairs_filter, order, order', List.filter_append,
      List.filter_cons_of_neg (by simpa using key_of_find found), ← List.filter_append,
      List.filter_eq_self.mpr fun other member => decide_eq_true (others other member)]
  · rw [ptrs, order, List.mem_map] at member
    rw [ptrs, order', List.mem_map] at outside
    obtain ⟨other, inside, rfl⟩ := member
    rcases List.mem_append.mp inside with early | late
    · exact absurd ⟨other, List.mem_append_left _ early, rfl⟩ outside
    · cases late with
      | head => exact deletes.released item found
      | tail _ late => exact absurd ⟨other, List.mem_append_right _ late, rfl⟩ outside

/-- With a child the deletion is wrong. -/
theorem IsSearchTree.childless_of_removes (search : IsSearchTree tree t)
    (deletes : Deletes tree.heap key t M') (reaches : Reaches Item.key key item left right t)
    (removes : RemovesKey tree.heap t key (ptrOf (deleted key t)) M') :
    left = .nil ∧ right = .nil := by
  obtain ⟨t', search', order, -⟩ := removes
  obtain rfl : t' = deleted key t := search'.holds.linked.unique deletes.linked search'.holds.root.symm
  have keys : ((pairs t).map Prod.fst).Nodup := by
    rw [pairs, List.map_map]
    exact search.ordered.nodup_keys
  have kept := length_le_filter_ne keys key
  rw [← order, pairs, pairs, List.length_map, List.length_map] at kept
  cases right with
  | node child near far =>
    have lost := length_deleted_above reaches rfl
    omega
  | nil =>
    refine ⟨?_, rfl⟩
    cases left with
    | nil => rfl
    | node child near far =>
      have outside : 0 ∉ ptrs t := fun member => (search.holds.linked.allocated member).1 rfl
      exact absurd (deletes.parentsHold_iff.mp search'.parents)
        (orphan reaches search.ordered search.holds.nodup outside search.parents)

theorem IsSearchTree.removesKey_iff (search : IsSearchTree tree t)
    (deletes : Deletes tree.heap key t M') :
    RemovesKey tree.heap t key (ptrOf (deleted key t)) M' ↔ ChildlessAt tree.heap t key := by
  constructor
  · intro removes x member n held same
    obtain ⟨item, inside, rfl⟩ := List.mem_map.mp member
    obtain ⟨-, n', held', key', -⟩ := search.holds.linked.held inside
    obtain rfl := Option.some.inj (held'.symm.trans held)
    have found := search.ordered.find_eq_some_iff.mpr ⟨inside, key'.symm.trans same⟩
    obtain ⟨left, right, shape⟩ := exists_node found
    obtain ⟨rfl, rfl⟩ := search.childless_of_removes deletes (reaches_of_subtree shape) removes
    obtain ⟨-, ⟨p, held''⟩, -⟩ := shape ▸ search.holds.linked.subtree key
    obtain rfl := Option.some.inj (held''.symm.trans held)
    exact ⟨rfl, rfl⟩
  · intro childless
    cases found : find Item.key key t with
    | none => exact search.removes_missing deletes found
    | some item =>
      obtain ⟨left, right, shape⟩ := exists_node found
      obtain ⟨-, ⟨p, held⟩, lower, upper⟩ := shape ▸ search.holds.linked.subtree key
      have named : item.key = key := key_of_find found
      obtain ⟨noLeft, noRight⟩ := childless item.ptr (List.mem_map_of_mem (mem_of_find found))
        _ held named
      obtain rfl := lower.ptrOf_eq_zero_iff.mp noLeft
      obtain rfl := upper.ptrOf_eq_zero_iff.mp noRight
      exact search.removes_leaf deletes shape

end Decision

/-- A deletion returns in every tree that insertions have built, and it is right exactly when no node with a child
has the key. -/
theorem delete_node_removes_iff {start tree : BstTree} {events : List InsertEvent}
    (empty : start.root = 0) (run : Run InsertStep start events tree) (key : ℤ) :
    ∃ t result M', IsSearchTree tree t ∧
    Computes (fun fuel => delete_node fuel tree.heap tree.root key) (result, M') ∧
      (RemovesKey tree.heap t key result M' ↔ ChildlessAt tree.heap t key) := by
  obtain ⟨t, search, -⟩ := Reached.of_run empty run
  obtain ⟨M', computes, deletes⟩ := delete_node_computes search.holds.linked search.holds.nodup key
  rw [← search.holds.root] at computes
  exact ⟨t, _, M', search, computes, search.removesKey_iff deletes⟩

/-- The key of a leaf. -/
theorem lastRight_delete_leaf : ∃ t result M', IsSearchTree (twoNodes 1 10 2 20) t ∧
    Computes (fun fuel => delete_node fuel (twoNodes 1 10 2 20).heap 1 2) (result, M') ∧
    RemovesKey (twoNodes 1 10 2 20).heap t 2 result M' := by
  obtain ⟨t, result, M', search, computes, iff⟩ := delete_node_removes_iff rfl lastRight_run 2
  refine ⟨t, result, M', search, computes, iff.mpr fun x _ n held same => ?_⟩
  have heap : (twoNodes 1 10 2 20).heap = (create_node (oneNode 1 10).heap 2 2 20 1 0 0).modify 1
    fun n => { n with r := 2 } := rfl
  rw [heap] at held
  by_cases first : x = 1
  · subst first
    obtain rfl := Option.some.inj held
    exact absurd same (by decide)
  · rw [modify_of_ne _ first, create_node] at held
    by_cases second : x = 2
    · rw [second, Function.update_self] at held
      obtain rfl := Option.some.inj held
      exact ⟨rfl, rfl⟩
    · have elsewhere : (oneNode 1 10).heap x = none := Function.update_of_ne first ..
      rw [Function.update_of_ne second, elsewhere] at held
      contradiction

/-- The deletion of key 1 loses key 2, which is in its right child. -/
theorem lastRight_delete_root :
    ∃ t M', Run InsertStep noNodes [⟨1, 1, 10⟩, ⟨2, 2, 20⟩] (twoNodes 1 10 2 20) ∧
    IsSearchTree (twoNodes 1 10 2 20) t ∧ pairs t = [(1, 10), (2, 20)] ∧
    Computes (fun fuel => delete_node fuel (twoNodes 1 10 2 20).heap (twoNodes 1 10 2 20).root 1)
      (0, M') ∧
    ¬ RemovesKey (twoNodes 1 10 2 20).heap t 1 0 M' := by
  let t : ItemTree := .node ⟨1, 1, 10⟩ .nil (.node ⟨2, 2, 20⟩ .nil .nil)
  have linked : Linked (twoNodes 1 10 2 20).heap t :=
    ⟨by decide, ⟨0, rfl⟩, trivial, by decide, ⟨1, rfl⟩, trivial, trivial⟩
  have ordered : Ordered Item.key t := by
    unfold Ordered
    decide
  refine ⟨t, Function.update (Function.update (twoNodes 1 10 2 20).heap 2 none) 1 none, lastRight_run,
    ⟨⟨rfl, linked, by decide⟩, ordered, rfl, trivial, rfl, trivial, trivial⟩, rfl,
    ⟨2, fun fuel bound => ?_⟩, ?_⟩
  · obtain ⟨fuel, rfl⟩ := Nat.exists_eq_add_of_le' bound
    rfl
  · rintro ⟨t', search, order, -⟩
    obtain rfl := search.holds.linked.ptrOf_eq_zero_iff.mp search.holds.root.symm
    exact absurd order (by decide)

end LinuxZero.Bst
