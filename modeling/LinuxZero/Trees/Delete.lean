import LinuxZero.Trees.DeleteFixup
import LinuxZero.Trees.Insert

/-! # Deleting

`rbtree_delete` takes a node out that has one child at most: the node itself, or its successor, whose key and
value then move to the node. The child, or `nil`, takes its place, and if the node was black the tree is
balanced from there.
-/

namespace LinuxZero.Trees

open RedBlack ColorTree

variable {T : Rbtree} {s : Side} {t child near far : ColorTree Item} {c : Color} {item : Item}
  {path : TreePath Item} {n x p : ℕ}

section Unlink

theorem color_modify_setParent {q : ℕ} : ((T.modify x (.setParent p)).node q).color =
    (T.node q).color := by
  by_cases same : q = x
  · rw [same, node_modify_self]
    rfl
  · rw [node_modify_of_ne same]

/-- The only child, or `nil`. -/
theorem unlink_child (holds : Holds T path (join s c child item .leaf)) :
    (if (T.node item.ptr).left ≠ T.nil then (T.node item.ptr).left
      else if (T.node item.ptr).right ≠ T.nil then (T.node item.ptr).right else T.nil) =
    ptrOf T.nil child := by
  have near := holds.cell.near
  have far := holds.cell.far
  cases s with
  | left =>
    have left : (T.node item.ptr).left = ptrOf T.nil child := near
    have right : (T.node item.ptr).right = T.nil := far
    rw [left, right, if_neg (not_not.mpr (rfl : T.nil = T.nil))]
    split_ifs with null
    · rfl
    · exact (not_not.mp null).symm
  | right =>
    have left : (T.node item.ptr).left = T.nil := far
    have right : (T.node item.ptr).right = ptrOf T.nil child := near
    rw [left, right, if_neg (not_not.mpr rfl)]
    split_ifs with null
    · rfl
    · exact (not_not.mp null).symm

/-- The node is taken out. -/
theorem unlink_focused (holds : Holds T path (join s c child item .leaf)) :
    (unlink T item.ptr).2 = ptrOf T.nil child ∧ (unlink T item.ptr).1.nil = T.nil ∧
    Focused (unlink T item.ptr).1 path child ∧
      (unlink T item.ptr).1.node item.ptr = T.node item.ptr := by
  obtain ⟨root, above, tree, nodup, nonnil, black⟩ := id holds
  rw [ptrOf_join] at root above
  obtain ⟨cell, childTree, _⟩ := at_join.mp tree
  obtain ⟨⟨distinct, distinctP⟩, apartP⟩ := nodup_fill.mp nodup
  obtain ⟨⟨outside, _⟩, ⟨distinctC, _⟩, _⟩ := nodup_join.mp distinct
  simp only [List.Disjoint, mem_treePtrs_join] at apartP
  simp only [mem_treePtrs_fill, mem_treePtrs_join, not_or] at nonnil
  obtain ⟨⟨nilItem, nilChild, _⟩, nilP⟩ := nonnil
  have onPath : item.ptr ∉ pathPtrs path := fun member => apartP (Or.inl rfl) member
  have ne : item.ptr ≠ ptrOf T.nil child := (ptrOf_ne outside (Ne.symm nilItem)).symm
  generalize first : T.modify (ptrOf T.nil child) (.setParent (parentOf T.nil path)) = T₁
  have nil₁ : T₁.nil = T.nil := by rw [← first, nil_modify]
  have node₁ : ∀ q, q ≠ ptrOf T.nil child → T₁.node q = T.node q := by
    intro q neChild
    rw [← first, node_modify_of_ne neChild]
  have unlinked : unlink T item.ptr =
    (relink T₁ .left (parentOf T.nil path) item.ptr (ptrOf T.nil child), ptrOf T.nil child) := by
    have parent₁ : (T₁.node item.ptr).parent = parentOf T.nil path := by rw [node₁ _ ne, cell.parent]
    rw [unlink, unlink_child holds, cell.parent, first, parent₁]
  have onPath₁ : ∀ q ∈ pathPtrs path, T₁.node q = T.node q := by
    intro q member
    refine node₁ q (ptrOf_ne (fun inside => apartP (by tauto) member)
      (ne_of_mem_of_not_mem member nilP)).symm
  have relinked : Relinked T₁ (relink T₁ .left (parentOf T.nil path) item.ptr (ptrOf T.nil child))
    path (ptrOf T.nil child) := by
    rw [← nil₁]
    refine relink_path (by rw [← first]; exact root) (by rw [nil₁]; exact above.frame onPath₁)
      distinctP (by rw [nil₁]; exact nilP)
      (by rw [nil₁]; exact Ne.symm nilItem) onPath .left _
  have nil₂ : (relink T₁ .left (parentOf T.nil path) item.ptr (ptrOf T.nil child)).nil = T.nil :=
    nil_relink.trans nil₁
  have tree₁ : At T₁.node T.nil (parentOf T.nil path) child := by
    cases child with
    | leaf => trivial
    | node c left i right =>
      have moved := childTree.reparent distinctC nilChild (parentOf T.nil path)
      have real : ptrOf T.nil (.node c left i right) ≠ T.nil := fun null => nilChild (null ▸ root_mem)
      rwa [reparent, if_pos real, first] at moved
  rw [unlinked]
  generalize relink T₁ .left (parentOf T.nil path) item.ptr (ptrOf T.nil child) = T₂ at relinked nil₂ ⊢
  have after : Holds T₂ path child := by
    refine ⟨by rw [nil₂]; exact relinked.root, by rw [nil₂, ← nil₁]; exact nil₁ ▸ relinked.above,
      ?_, ?_, ?_, ?_⟩
    · rw [nil₂]
      exact tree₁.frame fun q member => relinked.others q fun member' => apartP (by tauto) member'
    · exact nodup_fill.mpr ⟨⟨distinctC, distinctP⟩, fun q member member' => apartP (by tauto) member'⟩
    · rw [nil₂, mem_treePtrs_fill]
      exact not_or.mpr ⟨nilChild, nilP⟩
    · rw [nil₂, relinked.others _ nilP, ← first, color_modify_setParent, black]
  refine ⟨rfl, nil₂, ⟨after, ?_⟩, ?_⟩
  · cases child with
    | leaf =>
      rw [nil₂, ptrOf, relinked.others _ nilP, ← first, ptrOf, node_modify_self]
      rfl
    | node c left i right => exact after.parent_above (by rintro ⟨⟩)
  · rw [relinked.others _ onPath, node₁ _ ne]

end Unlink

section Successor

/-- `rbtree_mini` finds the leftmost node. -/
theorem miniLoop_returns (path : TreePath Item) (holds : Holds T path t) (nonempty : t ≠ .leaf) :
    ∃ low c y right, t = TreePath.fill low (.node c .leaf y right) ∧ low.before = [] ∧
      Loop.Returns (miniLoop T) (ptrOf T.nil t) y.ptr := by
  induction t generalizing path with
  | leaf => exact absurd rfl nonempty
  | node c left item right ihl _ =>
    have tree : Holds T path (join .left c left item right) := holds
    have left_ptr : (T.node item.ptr).left = ptrOf T.nil left := tree.cell.near
    have below := holds_cons.mpr tree
    by_cases leaf : left = .leaf
    · refine ⟨[], c, item, right, by rw [leaf]; rfl, rfl, Loop.returns_of_exit ?_⟩
      change miniLoop T item.ptr = _
      rw [miniLoop, left_ptr, leaf]
      exact if_neg (not_not.mpr rfl)
    · obtain ⟨low, c', y, right', shape, before, returns⟩ := ihl _ below leaf
      refine ⟨low ++ [⟨.left, c, item, right⟩], c', y, right', ?_, ?_, ?_⟩
      · rw [TreePath.fill_append, ← shape]
        rfl
      · rw [TreePath.before_append, before]
        rfl
      · have further : (T.node item.ptr).left ≠ T.nil := by
          rw [left_ptr]
          exact (ptrOf_eq_nil_iff below.nonnil_tree).not.mpr leaf
        have round : miniLoop T item.ptr = .inl (ptrOf T.nil left) := by
          rw [miniLoop, if_pos further, left_ptr]
        exact (Loop.returns_iff_of_round round _).mpr returns

end Successor

section Content

/-- A node of the path gets the content of another node. -/
theorem moveContent_focused {low : TreePath Item} {sibling : ColorTree Item} {y : ℕ}
    (focused : Focused T (low ++ ⟨s, c, item, sibling⟩ :: path) t) (ne : y ≠ item.ptr) :
    Focused (moveContent T item.ptr y)
      (low ++ ⟨s, c, ⟨item.ptr, (T.node y).key, (T.node y).value⟩, sibling⟩ :: path) t ∧
    (moveContent T item.ptr y).nil = T.nil ∧
      ∀ q, q ≠ item.ptr → (moveContent T item.ptr y).node q = T.node q := by
  have holds := holds_cons.mp (holds_append.mp focused.toHolds)
  have cell := holds.cell
  have outside : item.ptr ∉ treePtrs t := fun member =>
    (nodup_join.mp (nodup_fill.mp holds.nodup).1.1).1.1 (mem_treePtrs_fill.mpr (Or.inl member))
  have real : item.ptr ≠ T.nil := fun null =>
    holds.nonnil_tree (mem_treePtrs_join.mpr (Or.inl null.symm))
  have parent : parentOf T.nil
    (low ++ ⟨s, c, ⟨item.ptr, (T.node y).key, (T.node y).value⟩, sibling⟩ :: path) =
      parentOf T.nil (low ++ ⟨s, c, item, sibling⟩ :: path) := by cases low <;> rfl
  rw [moveContent, if_pos ne]
  refine ⟨⟨?_, ?_⟩, rfl, fun q ne => node_modify_of_ne ne⟩
  · refine holds_append.mpr
      (holds_cons.mpr (holds.modify_root rfl ⟨cell.color, rfl, rfl, cell.parent, ?_, ?_⟩))
    · cases s <;> exact cell.near
    · cases s <;> exact cell.far
  · rw [nil_modify, node_modify_of_ne (ptrOf_ne outside real), focused.link, parent]

end Content

section Finish

/-- What taking a node out of the tree leaves. -/
structure Removed (T : Rbtree) (t : ColorTree Item) (item : Item) (y : ℕ) (T' : Rbtree)
    (t' : ColorTree Item) : Prop where
  nil : T'.nil = T.nil
  tree : SearchTree T' t'
  content : (content t).Perm ((item.key, item.value) :: Trees.content t')
  ptrs : (treePtrs t).Perm (y :: treePtrs t')
  last : t' = .leaf → (T'.node T'.nil).parent = T'.nil

theorem Removed.of_split {T' : Rbtree} {t' : ColorTree Item} {y : ℕ} {before after : List (ℤ × ℕ)}
    {low high : List ℕ} (nil : T'.nil = T.nil) (represents : Represents T' t')
    (last : t' = .leaf → (T'.node T'.nil).parent = T'.nil) (sorted : Sorted (Trees.content t))
    (whole : Trees.content t = before ++ (item.key, item.value) :: after)
    (rest : Trees.content t' = before ++ after) (ptrs : treePtrs t = low ++ y :: high)
    (ptrs' : treePtrs t' = low ++ high) :
    Removed T t item y T' t' := by
  refine ⟨nil, ⟨represents, ?_⟩, ?_, ?_, last⟩
  · have part : (before ++ after).Sublist (before ++ (item.key, item.value) :: after) :=
      (List.sublist_cons_self _ _).append_left before
    rw [rest]
    exact List.Pairwise.sublist part (whole ▸ sorted)
  · rw [whole, rest]
    exact List.perm_middle
  · rw [ptrs, ptrs']
    exact List.perm_middle

/-- What is left to balance when `y` has been taken out for `z`. -/
structure Unlinked (T : Rbtree) (z y : ℕ) (path : TreePath Item) (child : ColorTree Item)
    (c : Color) : Prop where
  x : (unlink T y).2 = ptrOf T.nil child
  nil : (moveContent (unlink T y).1 z y).nil = T.nil
  focused : Focused (moveContent (unlink T y).1 z y) path child
  color : ((moveContent (unlink T y).1 z y).node y).color = byte c
  red : c = .red → ∃ m, TreePath.Fits path child m
  black : c = .black → ∃ m, Short child m ∧ path.Balanced (m + 1)

/-- The part of `rbtree_delete` that knows `y`. -/
def deleteVictim (T : Rbtree) (z y fuel : ℕ) : Option (ℕ × Rbtree) :=
  let (T, x) := unlink T y
  let T := moveContent T z y
  if (T.node y).color = BLACK then (rbtree_delete_fixup T fuel x).map fun T => (y, T) else some (y, T)

/-- After the removal of a black node the tree is balanced from the child on. -/
theorem Unlinked.computes {z y : ℕ} (unlinked : Unlinked T z y path child c) :
    ∃ T' t', Computes (deleteVictim T z y) (y, T') ∧ T'.nil = T.nil ∧ Represents T' t' ∧
      t'.inorder = (path.fill child).inorder ∧ (t' = .leaf → (T'.node T'.nil).parent = T'.nil) := by
  obtain ⟨x_eq, nil, focused, color, red, black⟩ := unlinked
  unfold deleteVictim
  simp only [x_eq]
  generalize moveContent (unlink T y).1 z y = T₁ at nil focused color ⊢
  rw [← nil]
  cases c with
  | red =>
    obtain ⟨m, fits⟩ := red rfl
    have not_black : (T₁.node y).color ≠ BLACK := by
      rw [color]
      decide
    simp only [if_neg not_black]
    refine ⟨T₁, path.fill child, Computes.pure _, rfl, ⟨holds_fill.mpr focused.toHolds, fits.fill⟩,
      rfl, fun empty => ?_⟩
    obtain ⟨rfl, rfl⟩ := TreePath.fill_eq_leaf empty
    exact focused.link
  | black =>
    obtain ⟨m, short, above⟩ := black rfl
    obtain ⟨T', t', computes, nil', represents, order⟩ := rbtree_delete_fixup_computes focused short above
    have is_black : (T₁.node y).color = BLACK := color
    simp only [if_pos is_black]
    refine ⟨T', t', computes.map, nil', represents, order, fun empty => ?_⟩
    -- the loop does nothing at the root
    rw [empty] at order
    obtain ⟨rfl, rfl⟩ := TreePath.fill_eq_leaf (inorder_eq_nil.mp order.symm)
    have exit : deleteFixupLoop (T₁, T₁.nil) = .inr (T₁, T₁.nil) := deleteFixupLoop_exit focused
      (Or.inl rfl)
    have direct : Computes (fun fuel => rbtree_delete_fixup T₁ fuel T₁.nil) (T₁.setColor T₁.nil BLACK) :=
      (Computes.of_returns (Loop.returns_of_exit exit)).map
    rw [computes.unique direct, nil_setColor, parent_node_setColor]
    exact focused.link

theorem unlinked_itself (holds : Holds T path (join s c child item .leaf))
    (fits : TreePath.Fits path (join s c child item .leaf) n) :
    Unlinked T item.ptr item.ptr path child c := by
  obtain ⟨x_eq, nil, focused, node_y⟩ := unlink_focused holds
  have same : moveContent (unlink T item.ptr).1 item.ptr item.ptr = (unlink T item.ptr).1 :=
    if_neg (not_not.mpr rfl)
  refine ⟨x_eq, by rw [same, nil], by rwa [same], ?_, ?_, ?_⟩
  · rw [same, node_y, holds.cell.color]
  · rintro rfl
    exact ⟨n, fits.remove_red⟩
  · rintro rfl
    exact fits.remove_black

/-- The content of the successor moves to the node. -/
theorem unlinked_successor {left : ColorTree Item} {y : Item} {low : TreePath Item} {cy : Color}
    {yr : ColorTree Item}
    (holds : Holds T path (.node c left item (low.fill (.node cy .leaf y yr))))
    (fits : TreePath.Fits path (.node c left item (low.fill (.node cy .leaf y yr))) n) :
    Unlinked T item.ptr y.ptr (low ++ ⟨.right, c, ⟨item.ptr, y.key, y.value⟩, left⟩ :: path) yr cy := by
  have above_right : Holds T (⟨.right, c, item, left⟩ :: path) (low.fill (.node cy .leaf y yr)) :=
    holds_cons.mpr (show Holds T path
      (join .right c (low.fill (.node cy .leaf y yr)) item left) from holds)
  have below : Holds T (low ++ ⟨.right, c, item, left⟩ :: path) (join .right cy yr y .leaf) :=
    holds_append.mpr above_right
  obtain ⟨x_eq, nil, focused, node_y⟩ := unlink_focused below
  obtain ⟨m, fits_right⟩ := TreePath.Fits.down ⟨.right, c, item, left⟩ fits
  obtain ⟨m, fits_below⟩ := fits_right.append
  have ne : y.ptr ≠ item.ptr := by
    have apart : item.ptr ∉ treePtrs (low.fill (.node cy .leaf y yr)) :=
      ((nodup_join (s := .left)).mp (nodup_fill.mp holds.nodup).1.1).1.2
    intro equal
    exact apart (mem_treePtrs_fill.mpr (Or.inl (equal ▸ root_mem)))
  have cell : IsCell (T.node y.ptr) cy y _ .right _ _ := below.cell
  obtain ⟨moved, nil₁, others⟩ := moveContent_focused focused ne
  rw [node_y, cell.key, cell.value] at moved
  have fits_moved : TreePath.Fits _ (join .right cy yr y .leaf) m :=
    fits_below.setItem low ⟨item.ptr, y.key, y.value⟩
  refine ⟨x_eq, nil₁.trans nil, moved, ?_, ?_, ?_⟩
  · rw [others _ ne, node_y, cell.color]
  · rintro rfl
    exact ⟨m, fits_moved.remove_red⟩
  · rintro rfl
    exact fits_moved.remove_black

/-- The node itself is taken out. -/
theorem delete_itself (holds : Holds T path (join s c child item .leaf))
    (fits : TreePath.Fits path (join s c child item .leaf) n)
    (sorted : Sorted (content (path.fill (join s c child item .leaf)))) :
    ∃ T' t', Computes (deleteVictim T item.ptr item.ptr) (item.ptr, T') ∧
      Removed T (path.fill (join s c child item .leaf)) item item.ptr T' t' := by
  obtain ⟨T', t', computes, nil, represents, order, last⟩ := (unlinked_itself holds fits).computes
  obtain ⟨low, high, whole, rest⟩ := TreePath.exists_split path s c child item
  rw [← order] at rest
  have content_whole := congrArg (List.map fun i : Item => (i.key, i.value)) whole
  have content_rest := congrArg (List.map fun i : Item => (i.key, i.value)) rest
  have ptrs_whole := congrArg (List.map Item.ptr) whole
  have ptrs_rest := congrArg (List.map Item.ptr) rest
  rw [List.map_append] at content_whole content_rest ptrs_whole ptrs_rest
  exact ⟨T', t', computes, Removed.of_split nil represents last sorted content_whole content_rest
    ptrs_whole ptrs_rest⟩

/-- The successor is taken out, and its content moves to the node. -/
theorem delete_successor {left : ColorTree Item} {y : Item} {low : TreePath Item} {cy : Color}
    {yr : ColorTree Item}
    (holds : Holds T path (.node c left item (low.fill (.node cy .leaf y yr))))
    (fits : TreePath.Fits path (.node c left item (low.fill (.node cy .leaf y yr))) n)
    (sorted : Sorted (content (path.fill (.node c left item (low.fill (.node cy .leaf y yr))))))
    (leftmost : low.before = []) :
    ∃ T' t', Computes (deleteVictim T item.ptr y.ptr) (y.ptr, T') ∧
      Removed T (path.fill (.node c left item (low.fill (.node cy .leaf y yr)))) item y.ptr T' t' := by
  obtain ⟨T', t', computes, nil, represents, order, last⟩ := (unlinked_successor holds fits).computes
  have whole : (path.fill (.node c left item (low.fill (.node cy .leaf y yr)))).inorder =
      path.before ++ left.inorder ++ item :: y :: (yr.inorder ++ low.after ++ path.after) := by
    simp only [TreePath.inorder_fill, inorder, leftmost, List.nil_append, List.append_assoc,
      List.cons_append]
  have rest : t'.inorder =
      path.before ++ left.inorder ++ ⟨item.ptr, y.key,
      y.value⟩ :: (yr.inorder ++ low.after ++ path.after) := by
    rw [order, TreePath.inorder_fill, TreePath.before_append, TreePath.after_append, leftmost]
    simp only [TreePath.before, TreePath.after, List.append_nil, List.nil_append, List.append_assoc,
      List.cons_append]
  have content_whole := congrArg (List.map fun i : Item => (i.key, i.value)) whole
  have content_rest := congrArg (List.map fun i : Item => (i.key, i.value)) rest
  have ptrs_whole := congrArg (List.map Item.ptr) whole
  have ptrs_rest := congrArg (List.map Item.ptr) rest
  rw [List.map_append, List.map_cons] at content_whole content_rest ptrs_whole ptrs_rest
  rw [List.map_cons, List.append_cons] at ptrs_whole
  rw [List.append_cons] at ptrs_rest
  exact ⟨T', t', computes, Removed.of_split nil represents last sorted content_whole content_rest
    ptrs_whole ptrs_rest⟩

end Finish

/-- The node that is taken out: the node itself if a child is missing, the leftmost one on the right otherwise. -/
inductive Victim (T : Rbtree) (item : Item) (c : Color) : ColorTree Item → ColorTree Item → Prop
  | itself {left right : ColorTree Item} (s : Side) (child : ColorTree Item)
      (shape : ColorTree.node c left item right = join s c child item .leaf)
      (missing : (T.node item.ptr).left = T.nil ∨ (T.node item.ptr).right = T.nil) :
      Victim T item c left right
  | successor {left : ColorTree Item} {y : Item} {low : TreePath Item} {cy : Color} {yr : ColorTree Item}
      (leftmost : low.before = []) (left_real : (T.node item.ptr).left ≠ T.nil)
      (right_real : (T.node item.ptr).right ≠ T.nil)
      (returns : Loop.Returns (miniLoop T) (T.node item.ptr).right y.ptr) :
      Victim T item c left (low.fill (.node cy .leaf y yr))

theorem Holds.victim {left right : ColorTree Item} (holds : Holds T path (.node c left item right)) :
    Victim T item c left right := by
  have left_ptr : (T.node item.ptr).left = ptrOf T.nil left := holds.tree.1.near
  have right_ptr : (T.node item.ptr).right = ptrOf T.nil right := holds.tree.1.far
  have left_leaf : ptrOf T.nil left = T.nil ↔ left = .leaf := ptrOf_eq_nil_iff
    (holds_cons.mpr (show Holds T path (join .left c left item right) from holds)).nonnil_tree
  have below : Holds T (⟨.right, c, item, left⟩ :: path) right :=
    holds_cons.mpr (show Holds T path (join .right c right item left) from holds)
  have right_leaf : ptrOf T.nil right = T.nil ↔ right = .leaf := ptrOf_eq_nil_iff below.nonnil_tree
  by_cases none_left : left = .leaf
  · subst none_left
    exact .itself .right right rfl (Or.inl left_ptr)
  by_cases none_right : right = .leaf
  · subst none_right
    exact .itself .left left rfl (Or.inr right_ptr)
  · obtain ⟨low, cy, y, yr, rfl, leftmost, returns⟩ := miniLoop_returns _ below none_right
    rw [← right_ptr] at returns
    exact .successor leftmost (by rw [left_ptr]; exact left_leaf.not.mpr none_left)
      (by rw [right_ptr]; exact right_leaf.not.mpr none_right) returns

theorem rbtree_successor_computes {z y : ℕ} (further : (T.node z).right ≠ T.nil)
    (returns : Loop.Returns (miniLoop T) (T.node z).right y) :
    Computes (fun fuel => rbtree_successor T fuel z) y := by
  simp only [rbtree_successor, if_pos further]
  exact Computes.of_returns returns

/-- `rbtree_delete` takes a node of the tree out, and what is left is balanced. -/
theorem rbtree_delete_computes (tree : SearchTree T t) (member : item ∈ t.inorder) :
    ∃ y T' t', Computes (fun fuel => rbtree_delete T fuel item.ptr) (y, T') ∧
    Removed T t item y T' t' := by
  obtain ⟨⟨holds, n, fits⟩, sorted⟩ := tree
  obtain ⟨path, c, left, right, rfl⟩ := TreePath.exists_fill member
  obtain ⟨m, fits⟩ : ∃ m, TreePath.Fits path (.node c left item right) m := by
    have whole := fits.append
    rwa [List.append_nil] at whole
  replace holds := holds_fill.mp holds
  unfold rbtree_delete
  cases holds.victim with
  | itself s child shape missing =>
    rw [shape] at holds fits sorted ⊢
    obtain ⟨T', t', computes, removed⟩ := delete_itself holds fits sorted
    simp only [if_pos missing]
    exact ⟨item.ptr, T', t', Computes.bind (Computes.pure _) computes, removed⟩
  | successor leftmost left_real right_real returns =>
    obtain ⟨T', t', computes, removed⟩ := delete_successor holds fits sorted leftmost
    simp only [if_neg (not_or.mpr ⟨left_real, right_real⟩)]
    exact ⟨_, T', t', Computes.bind (rbtree_successor_computes right_real returns) computes, removed⟩

end LinuxZero.Trees
