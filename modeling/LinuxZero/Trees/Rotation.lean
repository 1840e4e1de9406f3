import LinuxZero.Trees.Layout

/-! # Rotations in memory

A rotation writes to the two nodes that change places, to the root of the subtree between them and to the
parent of the upper one. The memory then holds the rotated tree in the same hole; nothing else has changed,
and the order of the nodes is the same.
-/

namespace LinuxZero.Trees

open RedBlack ColorTree

variable {T : Rbtree} {nil parent p q x y : ℕ} {side : Side} {c : Color}
  {t near far : ColorTree Item} {item : Item}
  {path : TreePath Item} {f : RbtreeNode → RbtreeNode}

section Modify

@[simp] theorem node_modify_self : (T.modify p f).node p = f (T.node p) := Function.update_self ..

theorem node_modify_of_ne (ne : q ≠ p) : (T.modify p f).node q = T.node q := Function.update_of_ne ne ..

@[simp] theorem nil_modify : (T.modify p f).nil = T.nil := rfl

@[simp] theorem root_modify : (T.modify p f).root = T.root := rfl

@[simp] theorem nil_setColor {color : UInt8} : (T.setColor p color).nil = T.nil := rfl

@[simp] theorem root_setColor {color : UInt8} : (T.setColor p color).root = T.root := rfl

@[simp] theorem nil_reparent : (reparent T p q).nil = T.nil := by
  rw [reparent]
  split_ifs <;> rfl

@[simp] theorem root_reparent : (reparent T p q).root = T.root := by
  rw [reparent]
  split_ifs <;> rfl

@[simp] theorem nil_relink : (relink T side parent p q).nil = T.nil := by
  rw [relink]
  split_ifs <;> rfl

@[simp] theorem nil_rotate : (rotate T side p).nil = T.nil := by
  simp only [rotate, nil_modify, nil_relink, nil_reparent]

theorem At.modify (tree : At T.node nil parent t) (outside : p ∉ treePtrs t) :
    At (T.modify p f).node nil parent t :=
  tree.frame fun _ member => node_modify_of_ne (ne_of_mem_of_not_mem member outside)

theorem PathAt.modify {hole : ℕ} (above : PathAt T.node nil path hole) (outside : p ∉ pathPtrs path) :
    PathAt (T.modify p f).node nil path hole :=
  above.frame fun _ member => node_modify_of_ne (ne_of_mem_of_not_mem member outside)

end Modify

section Reparent

theorem node_reparent_of_ne (ne : q ≠ x) : (reparent T x p).node q = T.node q := by
  rw [reparent]
  split_ifs
  · exact node_modify_of_ne ne
  · rfl

/-- Only the root of the tree is written, and `nil` is none. -/
theorem node_reparent_of_notMem (outside : q ∉ treePtrs t) : (reparent T (ptrOf T.nil t) p).node q =
    T.node q := by
  cases t with
  | leaf => rw [ptrOf, reparent, if_neg (not_not.mpr rfl)]
  | node c left item right => exact node_reparent_of_ne (ne_of_mem_of_not_mem root_mem outside).symm

theorem At.reparent (tree : At T.node T.nil parent t) (nodup : (treePtrs t).Nodup)
    (nonnil : T.nil ∉ treePtrs t) (p : ℕ) :
    At (reparent T (ptrOf T.nil t) p).node T.nil p t := by
  cases t with
  | leaf => trivial
  | node c left item right =>
    obtain ⟨⟨outside, outside'⟩, _⟩ := (nodup_join (s := .left)).mp nodup
    obtain ⟨cell, first, second⟩ := tree
    have moved : item.ptr ≠ T.nil := fun equal => nonnil (equal ▸ root_mem)
    rw [ptrOf, Trees.reparent, if_pos moved]
    exact ⟨node_modify_self ▸ cell.setParent p, first.modify outside, second.modify outside'⟩

end Reparent

section Relink

variable {frame : Frame Item}

theorem parentOf_cons_ne (nonnil : T.nil ∉ pathPtrs (frame :: path)) : frame.item.ptr ≠ T.nil :=
  fun equal =>
  nonnil (equal ▸ mem_pathPtrs_cons.mpr (Or.inl rfl))

theorem nodup_cons (nodup : (pathPtrs (frame :: path)).Nodup) :
    frame.item.ptr ∉ treePtrs frame.sibling ∧ frame.item.ptr ∉ pathPtrs path := by
  have whole : (treePtrs (TreePath.fill (frame :: path) .leaf)).Nodup :=
    nodup_fill.mpr ⟨⟨List.nodup_nil, nodup⟩, List.disjoint_nil_left _⟩
  rw [TreePath.fill, nodup_fill, Frame.plug, nodup_join] at whole
  exact ⟨whole.1.1.1.2, fun member => whole.2 (mem_treePtrs_join.mpr (Or.inl rfl)) member⟩

/-- The parent of the hole gets another child. -/
theorem PathAt.setHole (above : PathAt T.node nil (frame :: path) p)
    (nodup : (pathPtrs (frame :: path)).Nodup) (q : ℕ) :
    PathAt (T.modify frame.item.ptr (.setChild frame.side q)).node nil (frame :: path) q := by
  obtain ⟨outside, outside'⟩ := nodup_cons nodup
  obtain ⟨cell, sibling, rest⟩ := above
  exact ⟨node_modify_self ▸ cell.setNear q, sibling.modify outside, rest.modify outside'⟩

/-- What holds of the path when another node is linked below it. -/
structure Relinked (T T' : Rbtree) (path : TreePath Item) (hole : ℕ) : Prop where
  root : T'.root = rootOf path hole
  above : PathAt T'.node T.nil path hole
  others : ∀ p ∉ pathPtrs path, T'.node p = T.node p

theorem relink_path (root : T.root = rootOf path x) (above : PathAt T.node T.nil path x)
    (nodup : (pathPtrs path).Nodup) (nonnil : T.nil ∉ pathPtrs path) (real : x ≠ T.nil)
    (outside : x ∉ pathPtrs path) (side : Side) (y : ℕ) :
    Relinked T (relink T side (parentOf T.nil path) x y) path y := by
  cases path with
  | nil =>
    rw [parentOf, relink, if_pos rfl]
    exact ⟨rfl, trivial, fun _ _ => rfl⟩
  | cons frame path =>
    have set : relink T side frame.item.ptr x y = T.modify frame.item.ptr (.setChild frame.side y) := by
      obtain ⟨cell, _, _⟩ := above
      rw [relink, if_neg (parentOf_cons_ne nonnil)]
      by_cases same : side = frame.side
      · subst same
        rw [if_pos cell.near.symm]
      · have other := Side.eq_other_of_ne same
        have apart : x ≠ ptrOf T.nil frame.sibling :=
          (ptrOf_ne (fun member => outside (mem_pathPtrs_cons.mpr (Or.inr (Or.inl member)))) real).symm
        rw [other, cell.far, if_neg apart, Side.other_other]
    rw [parentOf, set]
    refine ⟨root, above.setHole nodup y, fun p member => node_modify_of_ne ?_⟩
    rintro rfl
    exact member (mem_pathPtrs_cons.mpr (Or.inl rfl))

end Relink

/-- The writes of a rotation, when the nodes that they read are known. -/
theorem rotate_eq {b : ℕ} (far : (T.node x).child side.other = y) (near : (T.node y).child side = b)
    (above : (T.node x).parent = parent) (ne : x ≠ y) (apart : x ≠ b) :
    rotate T side x =
      ((relink ((reparent (T.modify x (.setChild side.other b)) b x).modify y (.setParent parent))
      side parent x y).modify y
        (.setChild side x)).modify x (.setParent y) := by
  simp only [rotate, far, near, node_modify_of_ne ne, node_modify_of_ne ne.symm,
    node_reparent_of_ne apart, node_modify_self, parent_setChild, above]

/-- The nodes around a rotation are different from each other and from `nil`. -/
structure RotationApart (nil : ℕ) (path : TreePath Item) (a b d : ColorTree Item)
    (x y : Item) : Prop where
  xy : x.ptr ≠ y.ptr
  inA : ∀ p ∈ treePtrs a, p ≠ x.ptr ∧ p ≠ y.ptr ∧ p ∉ treePtrs b
  inB : ∀ p ∈ treePtrs b, p ≠ x.ptr ∧ p ≠ y.ptr
  inD : ∀ p ∈ treePtrs d, p ≠ x.ptr ∧ p ≠ y.ptr ∧ p ∉ treePtrs b
  onPath : ∀ p ∈ pathPtrs path, p ≠ x.ptr ∧ p ≠ y.ptr ∧ p ∉ treePtrs a ∧ p ∉ treePtrs b ∧ p ∉ treePtrs d
  null : nil ≠ x.ptr ∧ nil ≠ y.ptr ∧ nil ∉ treePtrs b ∧ nil ∉ pathPtrs path
  nodupB : (treePtrs b).Nodup
  nodupPath : (pathPtrs path).Nodup

theorem Holds.rotationApart {cx cy : Color} {a b d : ColorTree Item} {x y : Item}
    (holds : Holds T path (join side cx a x (join side cy b y d))) :
    RotationApart T.nil path a b d x y := by
  have nonnil := holds.nonnil
  obtain ⟨⟨distinct, distinctP⟩, apartP⟩ := nodup_fill.mp holds.nodup
  obtain ⟨⟨xa, xInner⟩, ⟨_, distinct⟩, apartA⟩ := nodup_join.mp distinct
  obtain ⟨⟨yb, yd⟩, ⟨distinctB, _⟩, apartB⟩ := nodup_join.mp distinct
  simp only [List.Disjoint, mem_treePtrs_join] at xInner apartA apartP
  simp only [mem_treePtrs_fill, mem_treePtrs_join, not_or] at xInner nonnil
  obtain ⟨xy, xb, xd⟩ := xInner
  obtain ⟨⟨nilX, _, nilY, nilB, _⟩, nilP⟩ := nonnil
  refine ⟨xy, fun p member => ⟨?_, ?_, ?_⟩, fun p member => ⟨?_, ?_⟩, fun p member => ⟨?_, ?_, ?_⟩,
    fun p member => ⟨?_, ?_, ?_, ?_, ?_⟩, ⟨nilX, nilY, nilB, nilP⟩, distinctB, distinctP⟩
  · exact ne_of_mem_of_not_mem member xa
  · exact fun same => apartA member (Or.inl same)
  · exact fun inB => apartA member (Or.inr (Or.inl inB))
  · exact ne_of_mem_of_not_mem member xb
  · exact ne_of_mem_of_not_mem member yb
  · exact ne_of_mem_of_not_mem member xd
  · exact ne_of_mem_of_not_mem member yd
  · exact fun inB => apartB inB member
  · exact fun same => apartP (Or.inl same) member
  · exact fun same => apartP (Or.inr (Or.inr (Or.inl same))) member
  · exact fun inA => apartP (Or.inr (Or.inl inA)) member
  · exact fun inB => apartP (Or.inr (Or.inr (Or.inr (Or.inl inB)))) member
  · exact fun inD => apartP (Or.inr (Or.inr (Or.inr (Or.inr inD)))) member

/-- What a rotation writes: the two nodes change places, and the subtree between them has a new parent. -/
structure Rotated (T T' : Rbtree) (side : Side) (path : TreePath Item) (b : ColorTree Item)
    (x y : Item) : Prop where
  root : T'.root = rootOf path y.ptr
  above : PathAt T'.node T.nil path y.ptr
  upper : T'.node y.ptr = ((T.node y.ptr).setParent (parentOf T.nil path)).setChild side x.ptr
  lower : T'.node x.ptr = ((T.node x.ptr).setChild side.other (ptrOf T.nil b)).setParent y.ptr
  between : At T'.node T.nil x.ptr b
  others : ∀ p, p ≠ x.ptr → p ≠ y.ptr → p ∉ treePtrs b → p ∉ pathPtrs path → T'.node p = T.node p

theorem rotate_rotated {cx cy : Color} {a b d : ColorTree Item} {x y : Item}
    (holds : Holds T path (join side cx a x (join side cy b y d))) :
    Rotated T (rotate T side x.ptr) side path b x y := by
  have apart := holds.rotationApart
  obtain ⟨nilX, nilY, nilB, nilP⟩ := apart.null
  obtain ⟨root, above, tree, _⟩ := holds
  rw [ptrOf_join] at root above
  obtain ⟨cellX, _, inner⟩ := at_join.mp tree
  obtain ⟨cellY, treeB, _⟩ := at_join.mp inner
  rw [ptrOf_join] at cellX
  have xB : x.ptr ∉ treePtrs b := fun member => (apart.inB _ member).1 rfl
  have yB : y.ptr ∉ treePtrs b := fun member => (apart.inB _ member).2 rfl
  have xP : x.ptr ∉ pathPtrs path := fun member => (apart.onPath _ member).1 rfl
  have yP : y.ptr ∉ pathPtrs path := fun member => (apart.onPath _ member).2.1 rfl
  have rootB : x.ptr ≠ ptrOf T.nil b := (ptrOf_ne xB (Ne.symm nilX)).symm
  have rotated := rotate_eq cellX.far cellY.near cellX.parent apart.xy rootB
  -- the nodes of the subtree have a new parent, and nothing else has changed there
  generalize second : reparent (T.modify x.ptr (.setChild side.other (ptrOf T.nil b)))
    (ptrOf T.nil b) x.ptr = T₂ at rotated
  have nil₂ : T₂.nil = T.nil := by rw [← second, nil_reparent, nil_modify]
  have node₂ : ∀ p, p ≠ x.ptr → p ∉ treePtrs b → T₂.node p = T.node p := by
    intro p neX notB
    rw [← second]
    exact (node_reparent_of_notMem notB).trans (node_modify_of_ne neX)
  have nodeX₂ : T₂.node x.ptr = (T.node x.ptr).setChild side.other (ptrOf T.nil b) := by
    rw [← second, node_reparent_of_ne rootB, node_modify_self]
  have treeB₂ : At T₂.node T.nil x.ptr b := by
    rw [← second]
    exact (treeB.modify xB).reparent apart.nodupB nilB x.ptr
  have path₂ : ∀ p ∈ pathPtrs path, (T₂.modify y.ptr (.setParent (parentOf T.nil path))).node p =
    T.node p := by
    intro p member
    obtain ⟨neX, neY, _, notB, _⟩ := apart.onPath p member
    rw [node_modify_of_ne neY, node₂ p neX notB]
  -- the upper node takes the place of the lower one below the path
  have root₃ : (T₂.modify y.ptr (.setParent (parentOf T.nil path))).root = rootOf path x.ptr := by
    rw [root_modify, ← second, root_reparent, root_modify, root]
  have nil₃ : (T₂.modify y.ptr (.setParent (parentOf T.nil path))).nil = T.nil := nil₂
  have relinked := relink_path root₃ (by rw [nil₃]; exact above.frame path₂) apart.nodupPath
    (by rw [nil₃]; exact nilP)
    (by rw [nil₃]; exact Ne.symm nilX) xP side y.ptr
  rw [nil₃] at relinked
  generalize relink (T₂.modify y.ptr (.setParent (parentOf T.nil path))) side (parentOf T.nil path)
    x.ptr y.ptr = T₄
    at rotated relinked
  have node₆ : ∀ p, p ≠ x.ptr → p ≠ y.ptr → p ∉ pathPtrs path →
    (rotate T side x.ptr).node p = T₂.node p := by
    intro p neX neY outside
    rw [rotated, node_modify_of_ne neX, node_modify_of_ne neY, relinked.others p outside,
      node_modify_of_ne neY]
  refine ⟨?_, ?_, ?_, ?_, ?_, fun p neX neY notB outside => ?_⟩
  · rw [rotated]
    exact relinked.root
  · rw [rotated]
    exact PathAt.modify (PathAt.modify (nil₂ ▸ relinked.above) yP) xP
  · rw [rotated, node_modify_of_ne apart.xy.symm, node_modify_self, relinked.others _ yP,
      node_modify_self, node₂ _ apart.xy.symm yB]
  · rw [rotated, node_modify_self, node_modify_of_ne apart.xy, relinked.others _ xP,
      node_modify_of_ne apart.xy, nodeX₂]
  · exact treeB₂.frame fun p member => node₆ p (apart.inB p member).1 (apart.inB p member).2
      fun onPath => (apart.onPath p onPath).2.2.2.1 member
  · rw [node₆ p neX neY outside, node₂ p neX notB]

/-- A rotation in memory is a rotation of the tree. -/
theorem rotate_holds {cx cy : Color} {a b d : ColorTree Item} {x y : Item}
    (holds : Holds T path (join side cx a x (join side cy b y d))) :
    Holds (rotate T side x.ptr) path (join side cy (join side cx a x b) y d) ∧
      (rotate T side x.ptr).node T.nil = T.node T.nil := by
  have apart := holds.rotationApart
  have rotated := rotate_rotated holds
  obtain ⟨nilX, nilY, nilB, nilP⟩ := apart.null
  obtain ⟨_, _, tree, nodup, nonnil, black⟩ := holds
  obtain ⟨cellX, treeA, inner⟩ := at_join.mp tree
  obtain ⟨cellY, _, treeD⟩ := at_join.mp inner
  have same : (path.fill (join side cy (join side cx a x b) y d)).inorder =
      (path.fill (join side cx a x (join side cy b y d))).inorder := by
    rw [TreePath.inorder_fill, TreePath.inorder_fill, inorder_rotate]
  have nodeNil : (rotate T side x.ptr).node T.nil = T.node T.nil := rotated.others _ nilX nilY nilB nilP
  have outerA : ∀ p ∈ treePtrs a, (rotate T side x.ptr).node p = T.node p := fun p member =>
    rotated.others p (apart.inA p member).1 (apart.inA p member).2.1 (apart.inA p member).2.2
      fun onPath => (apart.onPath p onPath).2.2.1 member
  have outerD : ∀ p ∈ treePtrs d, (rotate T side x.ptr).node p = T.node p := fun p member =>
    rotated.others p (apart.inD p member).1 (apart.inD p member).2.1 (apart.inD p member).2.2
      fun onPath => (apart.onPath p onPath).2.2.2.2 member
  refine ⟨⟨?_, ?_, ?_, ?_, ?_, ?_⟩, nodeNil⟩
  · rw [ptrOf_join]
    exact rotated.root
  · rw [nil_rotate, ptrOf_join]
    exact rotated.above
  · rw [nil_rotate, at_join, at_join, ptrOf_join, rotated.lower, rotated.upper]
    exact ⟨(cellY.setParent _).setNear _, ⟨(cellX.setFar _).setParent _, treeA.frame outerA,
      rotated.between⟩, treeD.frame outerD⟩
  · rwa [treePtrs, same]
  · rw [nil_rotate, treePtrs, same]
    exact nonnil
  · rw [nil_rotate, nodeNil, black]

section Navigation

variable {frame : Frame Item}

/-- The hole moves between a node and its child. -/
theorem holds_cons : Holds T (⟨side, c, item, far⟩ :: path) near ↔
    Holds T path (join side c near item far) := by
  constructor
  · rintro ⟨root, ⟨cell, sibling, above⟩, tree, nodup, nonnil, black⟩
    exact ⟨by rwa [ptrOf_join], by rwa [ptrOf_join], at_join.mpr ⟨cell, tree, sibling⟩, nodup, nonnil,
      black⟩
  · rintro ⟨root, above, tree, nodup, nonnil, black⟩
    obtain ⟨cell, tree, sibling⟩ := at_join.mp tree
    rw [ptrOf_join] at root above
    exact ⟨root, ⟨cell, sibling, above⟩, tree, nodup, nonnil, black⟩

theorem holds_cons_other : Holds T (⟨side.other, c, item, near⟩ :: path) far ↔
    Holds T path (join side c near item far) := by
  rw [holds_cons, join_other]

theorem holds_append {low : TreePath Item} : Holds T (low ++ path) t ↔ Holds T path (low.fill t) := by
  induction low generalizing t with
  | nil => exact Iff.rfl
  | cons frame low ih => exact holds_cons.trans ih

theorem holds_fill : Holds T [] (path.fill t) ↔ Holds T path t := by
  rw [← holds_append, List.append_nil]

theorem Holds.cell (holds : Holds T path (join side c near item far)) :
    IsCell (T.node item.ptr) c item (parentOf T.nil path) side (ptrOf T.nil near) (ptrOf T.nil far) :=
  (at_join.mp holds.tree).1

/-- The node above the hole. -/
theorem Holds.cell_above (holds : Holds T (frame :: path) t) :
    IsCell (T.node frame.item.ptr) frame.color frame.item (parentOf T.nil path) frame.side (ptrOf T.nil t)
      (ptrOf T.nil frame.sibling) :=
  (holds_cons.mp holds).cell

theorem Holds.parent_above (holds : Holds T path t) (nonempty : t ≠ .leaf) :
    (T.node (ptrOf T.nil t)).parent = parentOf T.nil path := by
  obtain ⟨near, item, far, shape⟩ := exists_join .left nonempty
  rw [shape] at holds ⊢
  rw [ptrOf_join]
  exact holds.cell.parent

theorem Holds.color_above (holds : Holds T path t) : (T.node (parentOf T.nil path)).color =
    byte path.color := by
  cases path with
  | nil => exact holds.black
  | cons frame path => exact holds.cell_above.color

theorem Holds.nonnil_tree (holds : Holds T path t) : T.nil ∉ treePtrs t := fun member =>
  holds.nonnil (mem_treePtrs_fill.mpr (Or.inl member))

theorem Holds.color (holds : Holds T path t) : (T.node (ptrOf T.nil t)).color = byte t.color := by
  cases t with
  | leaf => exact holds.black
  | node c left item right => exact holds.tree.1.color

/-- A tree is not the other child of the node above it, unless both are empty. -/
theorem Holds.side_iff (holds : Holds T (frame :: path) t)
    (nonempty : t ≠ .leaf ∨ frame.sibling ≠ .leaf) (side : Side) :
    ptrOf T.nil t = (T.node frame.item.ptr).child side ↔ frame.side = side := by
  constructor
  · intro equal
    by_contra ne
    have other := Side.eq_other_of_ne (Ne.symm ne)
    rw [other, holds.cell_above.far] at equal
    have distinct := (nodup_join.mp (nodup_fill.mp (holds_cons.mp holds).nodup).1.1).2.2
    have sibling_nonnil := (holds_cons_other.mpr (holds_cons.mp holds)).nonnil_tree
    by_cases leaf : t = .leaf
    · rw [leaf] at equal
      exact nonempty.resolve_left (not_not.mpr leaf) ((ptrOf_eq_nil_iff sibling_nonnil).mp equal.symm)
    · have member : ptrOf T.nil t ∈ treePtrs t := ptrOf_mem leaf
      have real : ptrOf T.nil t ≠ T.nil := fun null => holds.nonnil_tree (null ▸ member)
      exact ptrOf_ne (fun member' => distinct member member') real equal.symm
  · rintro rfl
    exact holds.cell_above.near.symm

end Navigation

section Paint

/-- Another color or content of a node. -/
theorem Holds.modify_root {c' : Color} {item' : Item} (holds : Holds T path (join side c near item far))
    (same_ptr : item'.ptr = item.ptr)
    (cell : IsCell (f (T.node item.ptr)) c' item' (parentOf T.nil path) side (ptrOf T.nil near)
      (ptrOf T.nil far)) :
    Holds (T.modify item.ptr f) path (join side c' near item' far) := by
  obtain ⟨root, above, tree, nodup, nonnil, black⟩ := holds
  rw [ptrOf_join] at root above
  obtain ⟨_, treeNear, treeFar⟩ := at_join.mp tree
  obtain ⟨⟨distinct, _⟩, apart⟩ := nodup_fill.mp nodup
  obtain ⟨⟨outside, outside'⟩, _⟩ := nodup_join.mp distinct
  have onPath : item.ptr ∉ pathPtrs path := fun member =>
    apart (mem_treePtrs_join.mpr (Or.inl rfl)) member
  have same : treePtrs (path.fill (join side c' near item' far)) = treePtrs
    (path.fill (join side c near item far)) := by
    have inner : treePtrs (join side c' near item' far) = treePtrs (join side c near item far) := by
      cases side <;> simp only [treePtrs, join, inorder, List.map_append, List.map_cons, same_ptr]
    simp only [treePtrs] at inner
    simp only [treePtrs, TreePath.inorder_fill, List.map_append, inner]
  have real : T.nil ≠ item.ptr := by
    intro equal
    exact nonnil (mem_treePtrs_fill.mpr (Or.inl (mem_treePtrs_join.mpr (Or.inl equal))))
  refine ⟨by rwa [ptrOf_join, same_ptr], ?_, ?_, same ▸ nodup, same ▸ nonnil, ?_⟩
  · rw [ptrOf_join, same_ptr]
    exact above.modify onPath
  · refine at_join.mpr ⟨?_, ?_, ?_⟩
    · rw [same_ptr, node_modify_self]
      exact cell
    · rw [same_ptr]
      exact treeNear.modify outside
    · rw [same_ptr]
      exact treeFar.modify outside'
  · rw [nil_modify, node_modify_of_ne real, black]

theorem Holds.paint {s : Side} {c : Color} (holds : Holds T path (join s c near item far)) (c' : Color) :
    Holds (T.setColor item.ptr (byte c')) path (join s c' near item far) :=
  holds.modify_root rfl (holds.cell.setColor c')

/-- Painting `nil` black changes nothing. -/
theorem Holds.paint_black (holds : Holds T path t) :
    Holds (T.setColor (ptrOf T.nil t) BLACK) path (t.paint .black) := by
  cases t with
  | leaf =>
    have outside : T.nil ∉ pathPtrs path := fun member =>
      holds.nonnil (mem_treePtrs_fill.mpr (Or.inr member))
    exact ⟨holds.root, holds.above.modify outside, trivial, holds.nodup, holds.nonnil,
      by rw [ptrOf, nil_setColor, Rbtree.setColor, node_modify_self]; rfl⟩
  | node c left item right => exact Holds.paint (s := .left) holds .black

@[simp] theorem parent_node_setColor {color : UInt8} : ((T.setColor p color).node q).parent =
    (T.node q).parent := by
  by_cases same : q = p
  · rw [same, Rbtree.setColor, node_modify_self]
    rfl
  · rw [Rbtree.setColor, node_modify_of_ne same]

@[simp] theorem child_node_setColor {color : UInt8} : ((T.setColor p color).node q).child side =
    (T.node q).child side := by
  by_cases same : q = p
  · rw [same, Rbtree.setColor, node_modify_self, child_setColor]
  · rw [Rbtree.setColor, node_modify_of_ne same]

end Paint

end LinuxZero.Trees
