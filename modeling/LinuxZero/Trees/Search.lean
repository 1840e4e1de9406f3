import LinuxZero.Trees.Shape

/-! # Searching and traversing

`rbtree_search` goes down towards the key, so that it ends at the node of the key or at `nil`;
`rbtree_traversal` gives the keys of the nodes in order.
-/

namespace LinuxZero.Trees

open RedBlack ColorTree

variable {T : Rbtree} {t : ColorTree Item} {key : ℤ}

section Search

theorem searchLoop_node (key : ℤ) {c : Color} {left right : ColorTree Item} {item : Item}
    {path : TreePath Item} (holds : Holds T path (.node c left item right)) :
    searchLoop T key item.ptr =
      if key < item.key then .inl (ptrOf T.nil left)
      else if key > item.key then .inl (ptrOf T.nil right)
      else .inr item.ptr := by
  have real : item.ptr ≠ T.nil := fun null => holds.nonnil_tree (null ▸ root_mem)
  have left_ptr : (T.node item.ptr).left = ptrOf T.nil left := holds.tree.1.near
  have right_ptr : (T.node item.ptr).right = ptrOf T.nil right := holds.tree.1.far
  have item_key : (T.node item.ptr).key = item.key := holds.tree.1.key
  simp only [searchLoop, if_pos real, left_ptr, right_ptr, item_key]

theorem searchLoop_found (path : TreePath Item) (holds : Holds T path t)
    (sorted : Sorted (content t)) {i : Item} (member : i ∈ t.inorder) :
    Loop.Returns (searchLoop T i.key) (ptrOf T.nil t) i.ptr := by
  induction t generalizing path with
  | leaf => exact absurd member List.not_mem_nil
  | node c left item right ihl ihr =>
    have round := searchLoop_node i.key holds
    obtain ⟨sortedLeft, sortedRight⟩ := sorted.subtrees
    rcases (mem_inorder_join .left left right item (c := c)).mp member with rfl | lower | upper
    · rw [if_neg (by omega), if_neg (by omega)] at round
      exact Loop.returns_of_exit round
    · have less := sorted.sides.1 i lower
      rw [if_pos less] at round
      exact (Loop.returns_iff_of_round round _).mpr (ihl _ (holds_left holds) sortedLeft lower)
    · have greater := sorted.sides.2 i upper
      rw [if_neg (by omega), if_pos greater] at round
      exact (Loop.returns_iff_of_round round _).mpr (ihr _ (holds_right holds) sortedRight upper)

theorem searchLoop_missing (path : TreePath Item) (holds : Holds T path t)
    (absent : ∀ i ∈ t.inorder, i.key ≠ key) :
    Loop.Returns (searchLoop T key) (ptrOf T.nil t) T.nil := by
  induction t generalizing path with
  | leaf => exact Loop.returns_of_exit (if_neg (not_not.mpr rfl))
  | node c left item right ihl ihr =>
    have round := searchLoop_node key holds
    have members : ∀ i, i ∈ (ColorTree.node c left item right).inorder ↔ i = item ∨
      i ∈ left.inorder ∨ i ∈ right.inorder :=
      fun _ => mem_inorder_join .left left right item
    have ne := absent item ((members item).mpr (Or.inl rfl))
    have lower := ihl _ (holds_left holds) fun i member =>
      absent i ((members i).mpr (Or.inr (Or.inl member)))
    have upper := ihr _ (holds_right holds) fun i member =>
      absent i ((members i).mpr (Or.inr (Or.inr member)))
    split_ifs at round with less greater
    · exact (Loop.returns_iff_of_round round _).mpr lower
    · exact (Loop.returns_iff_of_round round _).mpr upper
    · omega

/-- The search finds the node of a key that is there. -/
theorem SearchTree.search_found (tree : SearchTree T t) {p : ℕ} (inTree : InTree T p) :
    Computes (fun fuel => rbtree_search T fuel (T.node p).key) p := by
  obtain ⟨i, member, rfl⟩ := List.mem_map.mp (tree.inTree_iff.mp inTree)
  rw [(tree.holds.tree.content_of_mem member).1]
  unfold rbtree_search
  rw [tree.holds.root]
  exact Computes.of_returns (searchLoop_found [] tree.holds tree.sorted member)

theorem SearchTree.search_missing (tree : SearchTree T t) (absent : key ∉ keys T) :
    Computes (fun fuel => rbtree_search T fuel key) T.nil := by
  unfold rbtree_search
  rw [tree.holds.root]
  refine Computes.of_returns (searchLoop_missing [] tree.holds fun i member equal => absent ?_)
  have inTree : InTree T i.ptr := tree.inTree_iff.mpr (List.mem_map_of_mem member)
  exact ⟨i.ptr, inTree, (tree.holds.tree.content_of_mem member).1.trans equal⟩

end Search

/-- The traversal gives the keys and the colors in order. -/
theorem rbtree_traversal_computes (path : TreePath Item) (holds : Holds T path t) :
    Computes (fun fuel => rbtree_traversal T fuel (ptrOf T.nil t))
      (t.inorder.map fun i => (i.key, (T.node i.ptr).color)) := by
  induction t generalizing path with
  | leaf =>
    refine Computes.of_succ ?_
    simp only [rbtree_traversal, ptrOf, ne_eq, not_true_eq_false, if_false]
    exact Computes.pure []
  | node c left item right ihl ihr =>
    have real : item.ptr ≠ T.nil := fun null => holds.nonnil_tree (null ▸ root_mem)
    have left_ptr : (T.node item.ptr).left = ptrOf T.nil left := holds.tree.1.near
    have right_ptr : (T.node item.ptr).right = ptrOf T.nil right := holds.tree.1.far
    have item_key : (T.node item.ptr).key = item.key := holds.tree.1.key
    have parts : ∀ fuel, rbtree_traversal T (fuel + 1) item.ptr =
        (rbtree_traversal T fuel (ptrOf T.nil left)).bind fun before =>
          (rbtree_traversal T fuel (ptrOf T.nil right)).map fun behind =>
            before ++ (item.key, (T.node item.ptr).color) :: behind := by
      intro fuel
      rw [rbtree_traversal, if_pos real, left_ptr, right_ptr, item_key]
    have lower := ihl _ (holds_left holds)
    have upper := ihr _ (holds_right holds)
    refine Computes.of_succ ?_
    simp only [ptrOf, parts, inorder, List.map_append, List.map_cons]
    exact lower.bind upper.map

end LinuxZero.Trees
