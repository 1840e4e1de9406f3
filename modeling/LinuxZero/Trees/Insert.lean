import LinuxZero.Trees.InsertFixup

/-! # Searching and inserting

In a tree whose keys are in order, the search for a key leads down to its node or to the hole in which the
key belongs. `rbtree_insert` puts a red node there, whatever its fields were before.
-/

namespace LinuxZero.Trees

open RedBlack ColorTree

variable {T : Rbtree} {t near far : ColorTree Item} {c : Color} {item : Item} {path : TreePath Item}
  {key : ℤ} {n : ℕ}

/-- The keys of the tree and their values, in order. -/
def content (t : ColorTree Item) : List (ℤ × ℕ) := t.inorder.map fun item => (item.key, item.value)

def Sorted (content : List (ℤ × ℕ)) : Prop := content.Pairwise fun first second => first.1 < second.1

/-- A search tree in memory. -/
structure SearchTree (T : Rbtree) (t : ColorTree Item) : Prop extends Represents T t where
  sorted : Sorted (content t)

/-- The key belongs into the hole of the path. -/
def Toward (path : TreePath Item) (key : ℤ) : Prop :=
  (∀ item ∈ path.before, item.key < key) ∧ ∀ item ∈ path.after, key < item.key

theorem content_fill : content (path.fill t) =
    path.before.map (fun item => (item.key, item.value)) ++ content t ++ path.after.map fun item =>
    (item.key, item.value) := by
  simp only [content, TreePath.inorder_fill, List.map_append]

theorem Sorted.hole (sorted : Sorted (content (path.fill t))) : Sorted (content t) := by
  rw [content_fill] at sorted
  exact (List.pairwise_append.mp (List.pairwise_append.mp sorted).1).2.1

/-- The keys of a subtree lie on their side of the root. -/
theorem Sorted.sides {left right : ColorTree Item} (sorted : Sorted (content (.node c left item right))) :
    (∀ i ∈ left.inorder, i.key < item.key) ∧ ∀ i ∈ right.inorder, item.key < i.key := by
  simp only [Sorted, content, inorder, List.map_append, List.map_cons, List.pairwise_append,
    List.pairwise_cons, List.mem_map, List.mem_cons] at sorted
  obtain ⟨_, ⟨after, _⟩, before⟩ := sorted
  exact ⟨fun i member => before _ ⟨i, member, rfl⟩ _ (Or.inl rfl),
    fun i member => after _ ⟨i, member, rfl⟩⟩

theorem Sorted.subtrees {left right : ColorTree Item}
    (sorted : Sorted (content (.node c left item right))) :
    Sorted (content left) ∧ Sorted (content right) := by
  simp only [Sorted, content, inorder, List.map_append, List.map_cons, List.pairwise_append,
    List.pairwise_cons] at sorted
  exact ⟨sorted.1, sorted.2.1.2⟩

theorem Toward.left (toward : Toward path key) {left right : ColorTree Item}
    (sorted : Sorted (content (.node c left item right))) (less : key < item.key) :
    Toward (⟨.left, c, item, right⟩ :: path) key := by
  refine ⟨toward.1, ?_⟩
  simp only [TreePath.after, List.mem_append, List.mem_cons]
  rintro i ((rfl | member) | member)
  · exact less
  · exact less.trans (sorted.sides.2 i member)
  · exact toward.2 i member

theorem Toward.right (toward : Toward path key) {left right : ColorTree Item}
    (sorted : Sorted (content (.node c left item right))) (greater : item.key < key) :
    Toward (⟨.right, c, item, left⟩ :: path) key := by
  refine ⟨?_, toward.2⟩
  simp only [TreePath.before, List.mem_append, List.mem_singleton]
  rintro i (member | member | rfl)
  · exact toward.1 i member
  · exact (sorted.sides.1 i member).trans greater
  · exact greater

section Search

/-- The search of an insertion ends at the key, or at the hole where it belongs. -/
theorem insertSearch_returns (path : TreePath Item) (holds : Holds T path t)
    (fits : TreePath.Fits path t n) (sorted : Sorted (content t)) (toward : Toward path key) :
    (∃ item ∈ t.inorder, item.key = key ∧
      Loop.Returns (insertSearch T key) (parentOf T.nil path, ptrOf T.nil t) none) ∨
    ∃ path' m, path'.fill .leaf = path.fill t ∧ TreePath.Fits path' .leaf m ∧ Toward path' key ∧
      Loop.Returns (insertSearch T key) (parentOf T.nil path, ptrOf T.nil t)
    (some (parentOf T.nil path')) := by
  induction t generalizing path n with
  | leaf =>
    refine Or.inr ⟨path, n, rfl, fits, toward, Loop.returns_of_exit ?_⟩
    exact if_neg (not_not.mpr rfl)
  | node c left item right ihl ihr =>
    have tree : Holds T path (join .left c left item right) := holds
    have real : item.ptr ≠ T.nil := fun null => holds.nonnil_tree (null ▸ root_mem)
    have item_key : (T.node item.ptr).key = item.key := tree.cell.key
    obtain ⟨sortedLeft, sortedRight⟩ := sorted.subtrees
    have body : insertSearch T key (parentOf T.nil path, item.ptr) =
        if key < item.key then .inl (item.ptr, ptrOf T.nil left)
        else if key > item.key then .inl (item.ptr, ptrOf T.nil right)
        else .inr none := by
      have left_ptr : (T.node item.ptr).left = ptrOf T.nil left := tree.cell.near
      have right_ptr : (T.node item.ptr).right = ptrOf T.nil right := tree.cell.far
      simp only [insertSearch, if_pos real, item_key, left_ptr, right_ptr]
    rcases lt_trichotomy key item.key with less | equal | greater
    · obtain ⟨m, below⟩ := TreePath.Fits.down ⟨.left, c, item, right⟩ fits
      rw [if_pos less] at body
      refine (ihl (⟨.left, c, item, right⟩ :: path) (holds_cons.mpr tree) below sortedLeft
        (toward.left sorted less)).imp ?_ ?_
      · rintro ⟨i, member, found, returns⟩
        exact ⟨i, mem_inorder_join .left left right item |>.mpr (by tauto), found,
          (Loop.returns_iff_of_round body _).mpr returns⟩
      · rintro ⟨path', m, same, fits', toward', returns⟩
        exact ⟨path', m, same, fits', toward', (Loop.returns_iff_of_round body _).mpr returns⟩
    · rw [if_neg (by omega), if_neg (by omega)] at body
      exact Or.inl ⟨item, mem_inorder_join .left left right item |>.mpr (Or.inl rfl), equal.symm,
        Loop.returns_of_exit body⟩
    · have right_tree : Holds T path (join .right c right item left) := holds
      obtain ⟨m, below⟩ := TreePath.Fits.down ⟨.right, c, item, left⟩ fits
      rw [if_neg (by omega), if_pos greater] at body
      refine (ihr (⟨.right, c, item, left⟩ :: path) (holds_cons.mpr right_tree) below sortedRight
        (toward.right sorted greater)).imp
        ?_ ?_
      · rintro ⟨i, member, found, returns⟩
        exact ⟨i, mem_inorder_join .left left right item |>.mpr (by tauto), found,
          (Loop.returns_iff_of_round body _).mpr returns⟩
      · rintro ⟨path', m, same, fits', toward', returns⟩
        exact ⟨path', m, same, fits', toward', (Loop.returns_iff_of_round body _).mpr returns⟩

end Search

section Link

variable {z : ℕ}

/-- The comparison of the keys tells the side of the hole. -/
theorem Toward.side {f : Frame Item} {up : TreePath Item} (toward : Toward (f :: up) key) :
    key < f.item.key ↔ f.side = .left := by
  obtain ⟨side, c, item, sibling⟩ := f
  cases side with
  | left => exact iff_of_true (toward.2 item (by simp [TreePath.after])) rfl
  | right => exact iff_of_false (toward.1 item (by simp [TreePath.before])).asymm (by rintro ⟨⟩)

/-- The node is linked at the hole. -/
theorem linkBelow_path {hole : ℕ} (root : T.root = rootOf path hole)
    (above : PathAt T.node T.nil path hole) (nodup : (pathPtrs path).Nodup)
    (nonnil : T.nil ∉ pathPtrs path) (toward : Toward path (T.node z).key) :
    Relinked T (linkBelow T z (parentOf T.nil path)) path z := by
  cases path with
  | nil =>
    rw [parentOf, linkBelow, if_pos rfl]
    exact ⟨rfl, trivial, fun _ _ => rfl⟩
  | cons f up =>
    have key_above : (T.node f.item.ptr).key = f.item.key := above.1.key
    have set : linkBelow T z f.item.ptr = T.modify f.item.ptr (.setChild f.side z) := by
      rw [linkBelow, if_neg (parentOf_cons_ne nonnil), key_above]
      cases side : f.side with
      | left => exact if_pos (toward.side.mpr side)
      | right =>
        refine if_neg fun less => ?_
        cases side.symm.trans (toward.side.mp less)
    rw [parentOf, set]
    refine ⟨root, above.setHole nodup z, fun p member => node_modify_of_ne ?_⟩
    rintro rfl
    exact member (mem_pathPtrs_cons.mpr (Or.inl rfl))

@[simp] theorem nil_linkBelow {y : ℕ} : (linkBelow T z y).nil = T.nil := by
  rw [linkBelow]
  split_ifs <;> rfl

/-- The node is a red leaf at the hole, whatever it was before. -/
theorem insertBelow_holds (holds : Holds T path .leaf) (fresh : z ∉ pathPtrs path) (real : z ≠ T.nil)
    (toward : Toward path (T.node z).key) :
    Holds (insertBelow T z (parentOf T.nil path)) path
      (.node .red .leaf ⟨z, (T.node z).key, (T.node z).value⟩ .leaf) ∧
      (insertBelow T z (parentOf T.nil path)).nil = T.nil := by
  have nonnil : T.nil ∉ pathPtrs path := fun member =>
    holds.nonnil (mem_treePtrs_fill.mpr (Or.inr member))
  have nodup := (nodup_fill.mp holds.nodup).1.2
  have node₁ : (T.modify z (.setParent (parentOf T.nil path))).node z = (T.node z).setParent
    (parentOf T.nil path) :=
    node_modify_self
  have linked : Relinked (T.modify z (.setParent (parentOf T.nil path)))
      (linkBelow (T.modify z (.setParent (parentOf T.nil path))) z (parentOf T.nil path)) path z :=
    linkBelow_path holds.root (holds.above.modify fresh) nodup nonnil (by rw [node₁]; exact toward)
  have nil : (insertBelow T z (parentOf T.nil path)).nil = T.nil := nil_linkBelow
  have node_z : (insertBelow T z (parentOf T.nil path)).node z =
      ((((T.node z).setParent (parentOf T.nil path)).setChild .left T.nil).setChild .right
      T.nil).setColor RED := by
    simp only [insertBelow, Rbtree.setColor, node_modify_self, nil_modify, nil_linkBelow]
    rw [← node₁, ← linked.others z fresh]
  have others : ∀ p, p ≠ z → (insertBelow T z (parentOf T.nil path)).node p =
      (linkBelow (T.modify z (.setParent (parentOf T.nil path))) z (parentOf T.nil path)).node p := by
    intro p ne
    simp only [insertBelow, Rbtree.setColor, node_modify_of_ne ne]
  have fill : ∀ p, p ∈ treePtrs
    (path.fill (.node .red .leaf ⟨z, (T.node z).key, (T.node z).value⟩ .leaf)) ↔
      p = z ∨ p ∈ pathPtrs path := by
    intro p
    rw [mem_treePtrs_fill]
    simp [treePtrs, inorder]
  refine ⟨⟨linked.root, ?_, ?_, ?_, ?_, ?_⟩, nil⟩
  · rw [nil]
    exact linked.above.frame fun p member => others p (ne_of_mem_of_not_mem member fresh)
  · rw [nil]
    refine ⟨?_, trivial, trivial⟩
    rw [node_z]
    exact ⟨rfl, rfl, rfl, rfl, rfl, rfl⟩
  · refine nodup_fill.mpr ⟨⟨List.nodup_singleton z, nodup⟩, ?_⟩
    rintro p member onPath
    obtain rfl : p = z := List.mem_singleton.mp member
    exact fresh onPath
  · rw [nil, fill]
    exact not_or.mpr ⟨real.symm, nonnil⟩
  · rw [nil, others _ real.symm, linked.others _ nonnil, node_modify_of_ne real.symm, holds.black]

end Link

/-- A key that belongs into a hole goes between the others. -/
theorem Toward.sorted (toward : Toward path key) (sorted : Sorted (content (path.fill .leaf)))
    {item : Item} (same : item.key = key) :
    Sorted (content (path.fill (.node c .leaf item .leaf))) := by
  rw [content_fill] at sorted ⊢
  simp only [content, inorder, List.map_nil, List.append_nil, List.nil_append, List.map_cons,
    Sorted, List.pairwise_append, List.pairwise_cons, List.mem_append, List.mem_singleton,
    List.not_mem_nil, List.mem_map] at sorted ⊢
  obtain ⟨before, after, across⟩ := sorted
  refine ⟨⟨before, ⟨fun _ impossible => impossible.elim, .nil⟩, ?_⟩, after, ?_⟩
  · rintro _ ⟨i, member, rfl⟩ _ rfl
    exact same.symm ▸ toward.1 i member
  · rintro first (⟨i, member, rfl⟩ | rfl) second member'
    · exact across _ ⟨i, member, rfl⟩ _ member'
    · obtain ⟨j, member', rfl⟩ := member'
      exact same.symm ▸ toward.2 j member'

/-- `rbtree_insert` returns; it changes nothing if the key is there, and adds the key otherwise. -/
theorem rbtree_insert_computes {z : ℕ} (tree : SearchTree T t) (fresh : z ∉ treePtrs t)
    (real : z ≠ T.nil) :
    ∃ T' t', Computes (fun fuel => rbtree_insert T fuel z) T' ∧ T'.nil = T.nil ∧ SearchTree T' t' ∧
      (((∃ kv ∈ content t, kv.1 = (T.node z).key) ∧ T' = T ∧ t' = t) ∨
        (∀ kv ∈ content t, kv.1 ≠ (T.node z).key) ∧
          (content t').Perm (((T.node z).key, (T.node z).value) :: content t) ∧
          (treePtrs t').Perm (z :: treePtrs t)) := by
  obtain ⟨⟨holds, n, fits⟩, sorted⟩ := tree
  have start : (T.nil, T.root) = (parentOf T.nil [], ptrOf T.nil t) := Prod.ext rfl holds.root
  have nowhere : Toward [] (T.node z).key := ⟨nofun, nofun⟩
  unfold rbtree_insert
  rw [start]
  rcases insertSearch_returns [] holds fits sorted nowhere with ⟨item, member, found, returns⟩ |
      ⟨path, m, same, below, toward, returns⟩
  · refine ⟨T, t, Computes.bind (Computes.of_returns returns) (Computes.pure T), rfl,
      ⟨⟨holds, n, fits⟩, sorted⟩, Or.inl ⟨?_, rfl, rfl⟩⟩
    exact ⟨_, List.mem_map.mpr ⟨item, member, rfl⟩, found⟩
  · obtain rfl : t = path.fill .leaf := same.symm
    have outside : z ∉ pathPtrs path := fun member => fresh (mem_treePtrs_fill.mpr (Or.inr member))
    obtain rfl : m = 0 := below.tree
    obtain ⟨linked, nil⟩ := insertBelow_holds (holds_fill.mp holds) outside real toward
    obtain ⟨T', t', computes, nil', represents, order⟩ := rbtree_insert_fixup_computes
      (show RedFocus _ path (.node .red .leaf _ .leaf) 0 from ⟨linked, rfl, ⟨⟨rfl, rfl⟩, rfl, rfl⟩,
      below.above⟩)
    have contents : content t' = content
      (path.fill (.node .red .leaf ⟨z, (T.node z).key, (T.node z).value⟩ .leaf)) :=
      congrArg (List.map _) order
    have ptrs : treePtrs t' = treePtrs
      (path.fill (.node .red .leaf ⟨z, (T.node z).key, (T.node z).value⟩ .leaf)) :=
      congrArg (List.map _) order
    refine ⟨T', t', Computes.bind (Computes.of_returns returns) computes, nil'.trans nil,
      ⟨represents, ?_⟩, Or.inr ⟨?_, ?_, ?_⟩⟩
    · rw [contents]
      exact toward.sorted sorted rfl
    · intro kv member equal
      simp only [content, List.mem_map, TreePath.inorder_fill, inorder, List.append_nil,
        List.mem_append] at member
      obtain ⟨i, member, rfl⟩ := member
      exact member.elim (fun before => (toward.1 i before).ne equal) fun after =>
        (toward.2 i after).ne' equal
    · rw [contents, content_fill, content_fill]
      simp only [content, inorder, List.map_nil, List.append_nil, List.nil_append, List.map_cons,
        List.append_assoc]
      exact List.perm_middle
    · rw [ptrs]
      simp only [treePtrs, TreePath.inorder_fill, inorder, List.map_append, List.map_cons,
        List.map_nil, List.append_nil, List.nil_append, List.append_assoc]
      exact List.perm_middle

end LinuxZero.Trees
