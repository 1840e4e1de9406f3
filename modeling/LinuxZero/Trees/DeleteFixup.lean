import LinuxZero.Trees.InsertFixup

/-! # Balancing after a deletion

`rbtree_delete_fixup` works on a tree that is one black node short, and that may be `nil`: then the parent
of `nil` is what leads upwards. A red sibling changes places with the parent first. With black children the
sibling becomes red and the parent is looked at next; otherwise two rotations at most mend the tree.
-/

namespace LinuxZero.Trees

open RedBlack ColorTree

variable {T T' : Rbtree} {s : Side} {c : Color} {t near far sibling : ColorTree Item} {p w : Item}
  {path up : TreePath Item} {n : ℕ}

/-- The parent of the tree in the hole is known even when the tree is `nil`. -/
structure Focused (T : Rbtree) (path : TreePath Item) (t : ColorTree Item) :
    Prop extends Holds T path t where
  link : (T.node (ptrOf T.nil t)).parent = parentOf T.nil path

theorem Focused.of_nonempty (holds : Holds T path t) (nonempty : t ≠ .leaf) : Focused T path t :=
  ⟨holds, holds.parent_above nonempty⟩

/-- The link stays while the parent of `nil` does. -/
theorem Focused.keep {up' : TreePath Item} {f f' : Frame Item} (focused : Focused T (f :: up) t)
    (holds : Holds T' (f' :: up') t) (same : f'.item = f.item) (nil : T'.nil = T.nil)
    (parent : (T'.node T.nil).parent = (T.node T.nil).parent) :
    Focused T' (f' :: up') t := by
  refine ⟨holds, ?_⟩
  cases t with
  | leaf =>
    have link := focused.link
    rw [ptrOf, parentOf] at link ⊢
    rw [nil, parent, link, same]
  | node c left item right => exact holds.parent_above (by rintro ⟨⟩)

section RedSibling

/-- A red sibling is exchanged with the parent. -/
theorem redSibling_red (focused : Focused T (⟨s, .black, p, join s .red near w far⟩ :: up) t) :
    ∃ T', redSibling T s (ptrOf T.nil t) w.ptr = (T', ptrOf T.nil near) ∧ T'.nil = T.nil ∧
      Focused T' (⟨s, .red, p, near⟩ :: ⟨s, .black, w, far⟩ :: up) t := by
  have link : (T.node (ptrOf T.nil t)).parent = p.ptr := focused.link
  have tree := holds_cons.mp focused.toHolds
  have first := (holds_cons_other.mpr tree).paint .black
  have second := (holds_cons_other.mp first).paint .red
  obtain ⟨third, nil_node⟩ := rotate_holds second
  have holds := holds_cons.mpr (holds_cons.mpr third)
  have nil : (rotate ((T.setColor w.ptr (byte .black)).setColor p.ptr (byte .red)) s p.ptr).nil =
    T.nil := by
    simp only [nil_rotate, nil_setColor]
  have after := focused.keep holds rfl nil
    ((congrArg RbtreeNode.parent nil_node).trans (by simp only [parent_node_setColor]; rfl))
  have red : (T.node w.ptr).color = RED := (holds_cons_other.mpr tree).cell.color
  refine ⟨_, ?_, nil, after⟩
  have link' := after.link
  have other := after.cell_above.far
  rw [nil] at link' other
  rw [redSibling, if_pos red]
  simp only [link]
  exact Prod.ext rfl ((congrArg (RbtreeNode.child s.other) (congrArg _ link')).trans other)

end RedSibling

section NearChild

/-- The near child of the sibling takes its place. -/
theorem redNearChild_rotate {inner outer : ColorTree Item} {child : Item}
    (focused : Focused T (⟨s, c, p, join s .black (join s .red inner child outer) w far⟩ :: up) t)
    (black : far.color = .black) :
    ∃ T', redNearChild T s (ptrOf T.nil t) w.ptr = (T', child.ptr) ∧ T'.nil = T.nil ∧
      Focused T' (⟨s, c, p, join s .black inner child (join s .red outer w far)⟩ :: up) t := by
  have link : (T.node (ptrOf T.nil t)).parent = p.ptr := focused.link
  have sibling := holds_cons_other.mpr (holds_cons.mp focused.toHolds)
  have near_ptr : (T.node w.ptr).child s = child.ptr := sibling.cell.near.trans ptrOf_join
  have far_black : (T.node ((T.node w.ptr).child s.other)).color = BLACK := by
    rw [sibling.cell.far, (holds_cons_other.mpr sibling).color, black]
    rfl
  have first := holds_cons.mp ((holds_cons.mpr sibling).paint .black)
  have second := first.paint .red
  rw [← join_other s, ← join_other s inner] at second
  obtain ⟨third, nil_node⟩ := rotate_holds second
  rw [join_other, join_other] at third
  have holds := holds_cons.mpr (holds_cons_other.mp third)
  have nil : (rotate ((T.setColor child.ptr (byte .black)).setColor w.ptr (byte .red)) s.other
    w.ptr).nil = T.nil := by
    simp only [nil_rotate, nil_setColor]
  have after := focused.keep holds rfl nil
    ((congrArg RbtreeNode.parent nil_node).trans (by simp only [parent_node_setColor]; rfl))
  refine ⟨_, ?_, nil, after⟩
  have link' := after.link
  have other := after.cell_above.far
  rw [nil] at link' other
  rw [ptrOf_join] at other
  rw [redNearChild, if_pos far_black, near_ptr]
  exact Prod.ext rfl ((congrArg (RbtreeNode.child s.other) (congrArg _ link')).trans other)

end NearChild

section FarChild

theorem redFarChild_holds (focused : Focused T (⟨s, c, p, join s .black near w far⟩ :: up) t) :
    Holds (redFarChild T s (ptrOf T.nil t) w.ptr) up
      (join s c (join s .black t p near) w (far.paint .black)) ∧
      (redFarChild T s (ptrOf T.nil t) w.ptr).nil = T.nil := by
  have link : (T.node (ptrOf T.nil t)).parent = p.ptr := focused.link
  have tree := holds_cons.mp focused.toHolds
  have color : (T.node p.ptr).color = byte c := tree.cell.color
  have far_ptr : (T.node w.ptr).child s.other = ptrOf T.nil far := (holds_cons_other.mpr tree).cell.far
  have first := holds_cons_other.mp ((holds_cons_other.mpr tree).paint c)
  have second := first.paint .black
  have third := (holds_cons_other.mpr (holds_cons_other.mpr second)).paint_black
  have turned := rotate_holds (holds_cons_other.mp (holds_cons_other.mp third))
  have equal : redFarChild T s (ptrOf T.nil t) w.ptr =
      rotate (((T.setColor w.ptr (byte c)).setColor p.ptr BLACK).setColor (ptrOf T.nil far) BLACK)
      s p.ptr := by
    simp only [redFarChild, parent_node_setColor, child_node_setColor, link, color, far_ptr]
  rw [equal]
  exact ⟨turned.1, by simp only [nil_rotate, nil_setColor]⟩

end FarChild

section Rounds

/-- With a red child of the sibling the whole tree is mended. -/
theorem blackSibling_root (focused : Focused T (⟨s, c, p, join s .black near w far⟩ :: up) t)
    (balanced : t.Balanced n)
    (above : TreePath.Balanced (⟨s, c, p, join s .black near w far⟩ :: up) (n + 1))
    (red : far.color = .red) :
    ∃ t' m, Focused (redFarChild T s (ptrOf T.nil t) w.ptr) [] t' ∧ TreePath.Fits [] t' m ∧ t' ≠ .leaf ∧
      t'.inorder = (up.fill (join s c t p (join s .black near w far))).inorder := by
  obtain ⟨m, fits⟩ := far_child_fits above balanced red
  obtain ⟨holds, _⟩ := redFarChild_holds focused
  obtain ⟨m', whole⟩ := fits.fill
  have nonempty : up.fill (join s c (join s .black t p near) w (far.paint .black)) ≠ .leaf :=
    TreePath.fill_nonempty up join_ne_leaf
  refine ⟨_, m', Focused.of_nonempty (holds_fill.mpr holds) nonempty, whole, nonempty, ?_⟩
  refine TreePath.inorder_fill_congr up
    ((inorder_rotate s t near (far.paint .black) p w c .black c .black).trans ?_)
  refine inorder_join_congr _ _ _ _ _ _ rfl ?_
  exact inorder_join_congr _ _ _ _ _ _ rfl (inorder_paint ..)

/-- After this the far child of the sibling is red. -/
theorem redNearChild_spec (focused : Focused T (⟨s, c, p, join s .black near w far⟩ :: up) t)
    (above : TreePath.Balanced (⟨s, c, p, join s .black near w far⟩ :: up) (n + 1))
    (red_child : ¬ (near.color = .black ∧ far.color = .black)) :
    ∃ T' near' w' far', redNearChild T s (ptrOf T.nil t) w.ptr = (T', w'.ptr) ∧ T'.nil = T.nil ∧
      Focused T' (⟨s, c, p, join s .black near' w' far'⟩ :: up) t ∧
      TreePath.Balanced (⟨s, c, p, join s .black near' w' far'⟩ :: up) (n + 1) ∧ far'.color = .red ∧
      (join s .black near' w' far').inorder = (join s .black near w far).inorder := by
  have sibling := holds_cons_other.mpr (holds_cons.mp focused.toHolds)
  have far_color : (T.node ((T.node w.ptr).child s.other)).color = BLACK ↔ far.color = .black := by
    rw [sibling.cell.far, (holds_cons_other.mpr sibling).color, byte_eq_black]
  cases color : far.color with
  | red =>
    refine ⟨T, near, w, far, ?_, rfl, focused, above, color, rfl⟩
    simp only [redNearChild, far_color, color]
    rfl
  | black =>
    have red : near.color = .red := by
      cases other : near.color with
      | red => rfl
      | black => exact absurd ⟨other, color⟩ red_child
    obtain ⟨inner, child, outer, shape⟩ := exists_join s (nonempty_of_red red)
    rw [red] at shape
    subst shape
    obtain ⟨T', equal, nil, focused'⟩ := redNearChild_rotate focused color
    exact ⟨T', inner, child, join s .red outer w far, equal, nil, focused',
      near_child_balanced above color, color_join .., (inorder_rotate ..).symm⟩

/-- With a black sibling the tree is mended, or its parent is looked at next. -/
theorem blackSibling_spec (focused : Focused T (⟨s, c, p, join s .black near w far⟩ :: up) t)
    (balanced : t.Balanced n)
    (above : TreePath.Balanced (⟨s, c, p, join s .black near w far⟩ :: up) (n + 1)) :
    ∃ T' path' t' m, blackSibling T s (ptrOf T.nil t) w.ptr = (T', ptrOf T.nil t') ∧
    T'.nil = T.nil ∧ Focused T' path' t' ∧
      t' ≠ .leaf ∧ (Short t' m ∧ path'.Balanced (m + 1)) ∧
      (path'.fill t').inorder = (up.fill (join s c t p (join s .black near w far))).inorder ∧
      ((path' = up ∧ t'.color = c) ∨ path' = []) := by
  have link : (T.node (ptrOf T.nil t)).parent = p.ptr := focused.link
  have tree := holds_cons.mp focused.toHolds
  have sibling := holds_cons_other.mpr tree
  have near_color : (T.node ((T.node w.ptr).child s)).color = BLACK ↔ near.color = .black := by
    rw [sibling.cell.near, (holds_cons.mpr sibling).color, byte_eq_black]
  have far_color : (T.node ((T.node w.ptr).child s.other)).color = BLACK ↔ far.color = .black := by
    rw [sibling.cell.far, (holds_cons_other.mpr sibling).color, byte_eq_black]
  simp only [blackSibling, near_color, far_color]
  by_cases both : near.color = .black ∧ far.color = .black
  · obtain ⟨m, short, rest⟩ := black_children_short above balanced both.1 both.2
    have painted := holds_cons_other.mp (sibling.paint .red)
    refine ⟨_, up, _, m, ?_, ?_, Focused.of_nonempty painted join_ne_leaf, join_ne_leaf,
      ⟨short, rest⟩, ?_, Or.inl ⟨rfl, color_join ..⟩⟩
    · rw [if_pos both, link, ptrOf_join]
      rfl
    · rfl
    · refine TreePath.inorder_fill_congr up (inorder_join_congr _ _ _ _ _ _ rfl ?_)
      exact inorder_join_congr _ _ _ _ _ _ rfl rfl
  · rw [if_neg both]
    obtain ⟨T', near', w', far', equal, nil, focused', above', red, inorder⟩ :=
      redNearChild_spec focused above both
    obtain ⟨t', m, root, fits, nonempty, inorder'⟩ := blackSibling_root focused' balanced above' red
    have nil' := (redFarChild_holds focused').2
    rw [nil] at root nil'
    refine ⟨_, [], t', m, ?_, nil', root, nonempty, ⟨fits.short, trivial⟩, inorder'.trans ?_, Or.inr rfl⟩
    · rw [equal]
      exact Prod.ext rfl (root.root.trans (by rw [nil']; rfl))
    · exact TreePath.inorder_fill_congr up (inorder_join_congr _ _ _ _ _ _ rfl inorder)

/-- A round looks at the sibling of its node. -/
theorem deleteFixupRound_eq (focused : Focused T (⟨s, c, p, sibling⟩ :: up) t) :
    deleteFixupRound T s (ptrOf T.nil t) =
      blackSibling (redSibling T s (ptrOf T.nil t) (ptrOf T.nil sibling)).1 s (ptrOf T.nil t)
        (redSibling T s (ptrOf T.nil t) (ptrOf T.nil sibling)).2 := by
  have link : (T.node (ptrOf T.nil t)).parent = p.ptr := focused.link
  have sibling_ptr : (T.node p.ptr).child s.other = ptrOf T.nil sibling := focused.cell_above.far
  rw [deleteFixupRound, link, sibling_ptr]

/-- A round leaves a tree that is short further up, or has mended the tree. -/
theorem deleteFixupRound_spec (focused : Focused T (⟨s, c, p, sibling⟩ :: up) t) (balanced : t.Balanced n)
    (above : TreePath.Balanced (⟨s, c, p, sibling⟩ :: up) (n + 1)) :
    ∃ T' path' t' m, deleteFixupRound T s (ptrOf T.nil t) = (T', ptrOf T.nil t') ∧ T'.nil = T.nil ∧
      Focused T' path' t' ∧ t' ≠ .leaf ∧ (Short t' m ∧ path'.Balanced (m + 1)) ∧
      (path'.fill t').inorder = (up.fill (join s c t p sibling)).inorder ∧
      (path' = up ∨ (path'.length = up.length + 1 ∧ t'.color = .red) ∨ path' = []) := by
  have nonempty : sibling ≠ .leaf := above.sibling.nonempty
  obtain ⟨near, w, far, shape⟩ := exists_join s nonempty
  have round := deleteFixupRound_eq focused
  rw [shape, ptrOf_join] at round
  cases color : sibling.color with
  | red =>
    rw [color] at shape
    subst shape
    obtain ⟨rfl, near_black, above'⟩ := red_sibling_balanced above
    obtain ⟨T₁, equal, nil₁, focused₁⟩ := redSibling_red focused
    have nonempty' : near ≠ .leaf := above'.sibling.nonempty
    obtain ⟨near', w', far', shape'⟩ := exists_join s nonempty'
    rw [near_black] at shape'
    subst shape'
    obtain ⟨T', path', t', m, equal', nil', focused', real, balances, inorder, next⟩ :=
      blackSibling_spec focused₁ balanced above'
    rw [nil₁] at equal' nil'
    refine ⟨T', path', t', m, ?_, nil', focused', real, balances, inorder.trans ?_, ?_⟩
    · rw [round, equal, ptrOf_join]
      exact equal'
    · exact TreePath.inorder_fill_congr up (inorder_rotate ..)
    · rcases next with ⟨rfl, red⟩ | root
      · exact Or.inr (Or.inl ⟨rfl, red⟩)
      · exact Or.inr (Or.inr root)
  | black =>
    rw [color] at shape
    subst shape
    have not_red : (T.node w.ptr).color ≠ RED := by
      rw [(holds_cons_other.mpr (holds_cons.mp focused.toHolds)).cell.color]
      decide
    have same : redSibling T s (ptrOf T.nil t) w.ptr = (T, w.ptr) := if_neg not_red
    obtain ⟨T', path', t', m, equal', nil', focused', real, balances, inorder, next⟩ :=
      blackSibling_spec focused balanced above
    refine ⟨T', path', t', m, ?_, nil', focused', real, balances, inorder, ?_⟩
    · rw [round, same]
      exact equal'
    · exact next.imp And.left Or.inr

end Rounds

section Loop

theorem rootOf_mem (path : TreePath Item) (hole : ℕ) (nonempty : path ≠ []) :
    rootOf path hole ∈ pathPtrs path := by
  induction path generalizing hole with
  | nil => exact absurd rfl nonempty
  | cons f path ih =>
    cases path with
    | nil => exact mem_pathPtrs_cons.mpr (Or.inl rfl)
    | cons g up => exact mem_pathPtrs_cons.mpr (Or.inr (Or.inr (ih f.item.ptr (List.cons_ne_nil g up))))

/-- The hole is not at the root. -/
theorem Holds.ne_root {f : Frame Item} (holds : Holds T (f :: up) t) : ptrOf T.nil t ≠ T.root := by
  have member := rootOf_mem (f :: up) (ptrOf T.nil t) (List.cons_ne_nil f up)
  rw [← holds.root] at member
  refine ptrOf_ne (fun inside => (nodup_fill.mp holds.nodup).2 inside member) ?_
  rintro null
  exact holds.nonnil (null ▸ mem_treePtrs_fill.mpr (Or.inr member))

theorem deleteFixupLoop_round {f : Frame Item} (focused : Focused T (f :: up) t)
    (black : t.color = .black) (nonempty : f.sibling ≠ .leaf) :
    deleteFixupLoop (T, ptrOf T.nil t) = .inl (deleteFixupRound T f.side (ptrOf T.nil t)) := by
  have link : (T.node (ptrOf T.nil t)).parent = f.item.ptr := focused.link
  have color : (T.node (ptrOf T.nil t)).color = BLACK := focused.color.trans (congrArg byte black)
  have left : ptrOf T.nil t = (T.node f.item.ptr).left ↔ f.side = .left :=
    focused.side_iff (Or.inr nonempty) .left
  rw [deleteFixupLoop, if_pos ⟨focused.ne_root, color⟩, link]
  simp only [left]
  obtain ⟨side, c, item, sibling⟩ := f
  cases side with
  | left => exact if_pos rfl
  | right => exact if_neg (fun impossible => nomatch impossible)

/-- Where the loop goes on. -/
theorem short_inside (short : Short t n) (stop : ¬ (path = [] ∨ t.color = .red)) :
    ∃ f up, path = f :: up ∧ t.color = .black ∧ t.Balanced n := by
  obtain ⟨inside, notRed⟩ := not_or.mp stop
  obtain ⟨f, up, rfl⟩ := List.exists_cons_of_ne_nil inside
  exact ⟨f, up, rfl, (Color.eq_black_iff _).mpr notRed, (short.resolve_right fun red => notRed red.1).2⟩

theorem deleteFixupLoop_exit (focused : Focused T path t) (stop : path = [] ∨ t.color = .red) :
    deleteFixupLoop (T, ptrOf T.nil t) = .inr (T, ptrOf T.nil t) := by
  refine if_neg fun go => ?_
  rcases stop with rfl | red
  · exact go.1 focused.root.symm
  · rw [focused.color, red] at go
    exact absurd go.2 (by decide)

/-- The loop returns, and leaves a tree in which only the root of the tree in the hole is to be painted. -/
theorem deleteFixupLoop_returns (path : TreePath Item) (focused : Focused T path t)
    (short : Short t n) (above : path.Balanced (n + 1)) :
    ∃ T' path' t' m, Loop.Returns deleteFixupLoop (T, ptrOf T.nil t) (T', ptrOf T.nil t') ∧
      T'.nil = T.nil ∧ Holds T' path' t' ∧ TreePath.Fits path' (t'.paint .black) m ∧
      (path'.fill t').inorder = (path.fill t).inorder := by
  induction measure : 2 * path.length + (if t.color = .red then 0 else 1) using Nat.strong_induction_on
    generalizing T path t n with
  | h _ ih =>
    by_cases stop : path = [] ∨ t.color = .red
    · obtain ⟨m, fits⟩ := short.fits above stop
      exact ⟨T, path, t, m, Loop.returns_of_exit (deleteFixupLoop_exit focused stop), rfl,
        focused.toHolds, fits, rfl⟩
    · obtain ⟨f, up, rfl, black, balanced⟩ := short_inside short stop
      have notRed := (Color.eq_black_iff _).mp black
      have round := deleteFixupLoop_round focused black above.sibling.nonempty
      obtain ⟨T₁, path₁, t₁, m₁, equal, nil₁, focused₁, -, ⟨short₁, above₁⟩, inorder₁, next⟩ :=
        deleteFixupRound_spec focused balanced above
      have less : 2 * path₁.length + (if t₁.color = .red then 0 else 1) < 2 * (f :: up).length +
        (if t.color = .red then 0 else 1) := by
        rw [if_neg notRed, List.length_cons]
        rcases next with rfl | ⟨length, red⟩ | rfl
        · split_ifs <;> omega
        · rw [if_pos red]
          omega
        · rw [List.length_nil]
          split_ifs <;> omega
      obtain ⟨T', path', t', m, returns, nil', holds, fits, inorder⟩ :=
        ih _ (measure ▸ less) path₁ focused₁ short₁ above₁ rfl
      rw [nil₁] at returns nil'
      rw [equal] at round
      exact ⟨T', path', t', m, (Loop.returns_iff_of_round round _).mpr returns, nil', holds, fits,
        inorder.trans inorder₁⟩

end Loop

/-- `rbtree_delete_fixup` balances the tree again. -/
theorem rbtree_delete_fixup_computes (focused : Focused T path t) (short : Short t n)
    (above : path.Balanced (n + 1)) :
    ∃ T' t', Computes (fun fuel => rbtree_delete_fixup T fuel (ptrOf T.nil t)) T' ∧ T'.nil = T.nil ∧
    Represents T' t' ∧
      t'.inorder = (path.fill t).inorder := by
  obtain ⟨T', path', t', m, returns, nil, holds, fits, inorder⟩ :=
    deleteFixupLoop_returns path focused short above
  have painted := holds.paint_black
  rw [nil] at painted
  refine ⟨_, path'.fill (t'.paint .black), (Computes.of_returns returns).map, nil,
    ⟨holds_fill.mpr painted, fits.fill⟩, ?_⟩
  rw [← inorder]
  exact TreePath.inorder_fill_congr path' (inorder_paint ..)

end LinuxZero.Trees
