import LinuxZero.Trees.Rotation

/-! # Balancing after an insertion

Each round of `rbtree_insert_fixup` works on a red node below a red parent. With a red uncle the
grandparent becomes red and is looked at next; otherwise the parent takes the place of the grandparent, after
it has been exchanged with an inner child. The path gets shorter in both cases.
-/

namespace LinuxZero.Trees

open RedBlack ColorTree

variable {T : Rbtree} {s side : Side} {c : Color} {t sibling uncle : ColorTree Item} {p g : Item}
  {path up : TreePath Item} {n : ℕ}

/-- The parent becomes black and takes the place of the grandparent, which becomes red. -/
theorem Holds.outer (holds : Holds T (⟨s, .red, p, sibling⟩ :: ⟨s, .black, g, uncle⟩ :: up) t)
    (nonempty : t ≠ .leaf) :
    let T₁ := T.setColor (T.node (ptrOf T.nil t)).parent BLACK
    let T₂ := T₁.setColor (T₁.node (T₁.node (ptrOf T.nil t)).parent).parent RED
    Holds (rotate T₂ s.other (T₂.node (T₂.node (ptrOf T.nil t)).parent).parent)
      (⟨s, .black, p, join s .red sibling g uncle⟩ :: up) t := by
  intro T₁ T₂
  have first : Holds T₁ (⟨s, .black, p, sibling⟩ :: ⟨s, .black, g, uncle⟩ :: up) t := by
    have parent : T₁ = T.setColor p.ptr BLACK := congrArg (T.setColor · BLACK)
      (holds.parent_above nonempty)
    rw [parent]
    exact holds_cons.mpr ((holds_cons.mp holds).paint .black)
  have second : Holds T₂ (⟨s, .black, p, sibling⟩ :: ⟨s, .red, g, uncle⟩ :: up) t := by
    have parent : (T₁.node (ptrOf T.nil t)).parent = p.ptr := first.parent_above nonempty
    have grandparent : (T₁.node p.ptr).parent = g.ptr := first.cell_above.parent
    have paint : T₂ = T₁.setColor g.ptr RED := by rw [← grandparent, ← parent]
    rw [paint]
    exact holds_cons.mpr (holds_cons.mpr ((holds_cons.mp (holds_cons.mp first)).paint .red))
  have parent : (T₂.node (ptrOf T.nil t)).parent = p.ptr := second.parent_above nonempty
  have grandparent : (T₂.node p.ptr).parent = g.ptr := second.cell_above.parent
  have turned := holds_cons.mp (holds_cons.mp second)
  rw [← join_other s (join s .black t p sibling), ← join_other s t] at turned
  have rotated := (rotate_holds turned).1
  rw [join_other, join_other] at rotated
  rw [parent, grandparent]
  exact holds_cons.mpr rotated

/-- The uncle is red. -/
theorem insertFixupRound_red (holds : Holds T (⟨side, .red, p, sibling⟩ :: ⟨s, .black, g, uncle⟩ :: up) t)
    (nonempty : t ≠ .leaf) (red : uncle.color = .red) :
    ∃ T', insertFixupRound T s (ptrOf T.nil t) = (T', g.ptr) ∧ T'.nil = T.nil ∧
      Holds T' up (join s .red (join side .black t p sibling) g (uncle.paint .black)) := by
  have parent : (T.node (ptrOf T.nil t)).parent = p.ptr := holds.parent_above nonempty
  have grandparent : (T.node p.ptr).parent = g.ptr := holds.cell_above.parent
  have uncle_ptr : (T.node g.ptr).child s.other = ptrOf T.nil uncle :=
    (holds_cons.mp holds).cell_above.far
  have above := holds_cons.mp holds
  have uncle_red : (T.node (ptrOf T.nil uncle)).color = RED := by
    have color := (holds_cons_other.mpr (holds_cons.mp above)).color
    rwa [red] at color
  have first := above.paint .black
  have second := (holds_cons_other.mpr (holds_cons.mp first)).paint_black
  have third := (holds_cons_other.mp second).paint .red
  refine ⟨_, ?_, ?_, third⟩
  · rw [insertFixupRound]
    simp only [parent, grandparent, uncle_ptr, uncle_red, if_true]
    rfl
  · rfl

/-- The uncle is black: `z` is the outer child that the balancing starts from. -/
theorem insertFixupRound_black {T₁ : Rbtree} {z : ℕ}
    (holds : Holds T (⟨side, .red, p, sibling⟩ :: ⟨s, .black, g, uncle⟩ :: up) t)
    (nonempty : t ≠ .leaf) (black : uncle.color = .black)
    (placed : (if ptrOf T.nil t = (T.node p.ptr).child s.other then (rotate T s p.ptr, p.ptr)
      else (T, ptrOf T.nil t)) = (T₁, z)) :
    let T₂ := T₁.setColor (T₁.node z).parent BLACK
    let T₃ := T₂.setColor (T₂.node (T₂.node z).parent).parent RED
    insertFixupRound T s (ptrOf T.nil t) =
    (rotate T₃ s.other (T₃.node (T₃.node z).parent).parent, z) := by
  have parent : (T.node (ptrOf T.nil t)).parent = p.ptr := holds.parent_above nonempty
  have grandparent : (T.node p.ptr).parent = g.ptr := holds.cell_above.parent
  have uncle_ptr : (T.node g.ptr).child s.other = ptrOf T.nil uncle :=
    (holds_cons.mp holds).cell_above.far
  have not_red : (T.node (ptrOf T.nil uncle)).color ≠ RED := by
    rw [(holds_cons_other.mpr (holds_cons.mp (holds_cons.mp holds))).color, black]
    decide
  rw [insertFixupRound]
  simp only [parent, grandparent, uncle_ptr, if_neg not_red, placed]

/-- What a round leaves when the uncle is black. -/
structure Outer (T T' : Rbtree) (up : TreePath Item) (s : Side) (g : Item)
    (uncle before t : ColorTree Item) (n : ℕ) (item : Item) (far : ColorTree Item) : Prop where
  nil : T'.nil = T.nil
  holds : Holds T' (⟨s, .black, item, join s .red far g uncle⟩ :: up) t
  color : t.color = .red
  balanced : t.Balanced n
  far_color : far.color = .black
  far_balanced : far.Balanced n
  inorder : (join s .black t item (join s .red far g uncle)).inorder =
    (join s .black before g uncle).inorder

theorem insertFixupRound_outer (holds : Holds T (⟨s, .red, p, sibling⟩ :: ⟨s, .black, g, uncle⟩ :: up) t)
    (red : t.color = .red) (balanced : t.Balanced n)
    (above : TreePath.Balanced (⟨s, .red, p, sibling⟩ :: ⟨s, .black, g, uncle⟩ :: up) n)
    (black : uncle.color = .black) :
    ∃ T', insertFixupRound T s (ptrOf T.nil t) = (T', ptrOf T.nil t) ∧
      Outer T T' up s g uncle (join s .red t p sibling) t n p sibling := by
  have nonempty := nonempty_of_red red
  have outer : ptrOf T.nil t ≠ (T.node p.ptr).child s.other := by
    intro equal
    exact s.other_ne ((holds.side_iff (Or.inl nonempty) s.other).mp equal).symm
  obtain ⟨sibling_black, sibling_balanced⟩ := (above.split rfl rfl).1
  refine ⟨_, ?_, ?_, holds.outer nonempty, red, balanced, sibling_black, sibling_balanced, ?_⟩
  · exact insertFixupRound_black holds nonempty black (if_neg outer)
  · simp only [nil_rotate, nil_setColor]
  · exact (inorder_rotate ..).symm

/-- An inner child takes the place of its parent. -/
theorem Holds.exchange {a b : ColorTree Item} {z : Item}
    (holds : Holds T (⟨s.other, .red, p, sibling⟩ :: ⟨s, .black, g, uncle⟩ :: up) (join s .red a z b)) :
    Holds (rotate T s p.ptr) (⟨s, .red, z, b⟩ :: ⟨s, .black, g, uncle⟩ :: up)
      (join s .red sibling p a) := by
  have tree := holds_cons.mp holds
  rw [join_other] at tree
  exact holds_cons.mpr (rotate_holds tree).1

/-- An inner child is exchanged with its parent first. -/
theorem insertFixupRound_inner
    (holds : Holds T (⟨s.other, .red, p, sibling⟩ :: ⟨s, .black, g, uncle⟩ :: up) t)
    (red : t.color = .red) (balanced : t.Balanced n)
    (above : TreePath.Balanced (⟨s.other, .red, p, sibling⟩ :: ⟨s, .black, g, uncle⟩ :: up) n)
    (black : uncle.color = .black) :
    ∃ T' t' item far, insertFixupRound T s (ptrOf T.nil t) = (T', ptrOf T.nil t') ∧
      Outer T T' up s g uncle (join s.other .red t p sibling) t' n item far := by
  have nonempty := nonempty_of_red red
  have inner : ptrOf T.nil t = (T.node p.ptr).child s.other := holds.cell_above.near.symm
  obtain ⟨a, z, b, shape⟩ := exists_join s nonempty
  rw [red] at shape
  obtain ⟨⟨a_black, a_balanced⟩, b_black, b_balanced⟩ := balanced_red.mp (shape ▸ balanced)
  obtain ⟨sibling_black, sibling_balanced⟩ := (above.split rfl rfl).1
  have exchanged := Holds.exchange (shape ▸ holds)
  have ptr : ptrOf (rotate T s p.ptr).nil (join s .red sibling p a) = p.ptr := ptrOf_join
  have outer := exchanged.outer (nonempty_of_red (color_join ..))
  rw [ptr] at outer
  refine ⟨_, join s .red sibling p a, z, b, ?_, ?_, outer, color_join .., ?_, b_black, b_balanced, ?_⟩
  · rw [ptrOf_join]
    exact insertFixupRound_black holds nonempty black (if_pos inner)
  · simp only [nil_rotate, nil_setColor]
  · exact balanced_red.mpr ⟨⟨sibling_black, sibling_balanced⟩, a_black, a_balanced⟩
  · rw [join_other, shape, ← inorder_rotate s _ _ _ _ _ .black .red .black .red]
    exact inorder_join_congr _ _ _ _ _ _ (inorder_rotate ..) rfl

/-- The loop takes the half for the side that the parent is on. -/
theorem insertFixupLoop_round
    (holds : Holds T (⟨side, .red, p, sibling⟩ :: ⟨s, .black, g, uncle⟩ :: up) t)
    (nonempty : t ≠ .leaf) : insertFixupLoop (T, ptrOf T.nil t) =
    .inl (insertFixupRound T s (ptrOf T.nil t)) := by
  have parent : (T.node (ptrOf T.nil t)).parent = p.ptr := holds.parent_above nonempty
  have grandparent : (T.node p.ptr).parent = g.ptr := holds.cell_above.parent
  have red : (T.node p.ptr).color = RED := holds.cell_above.color
  have left : p.ptr = (T.node g.ptr).left ↔ s = .left := by
    have tree := holds_cons.mp holds
    have iff := tree.side_iff (Or.inl (nonempty_of_red (color_join ..))) .left
    rwa [ptrOf_join] at iff
  simp only [insertFixupLoop, parent, red, if_true, grandparent, left]
  cases s with
  | left => rw [if_pos rfl]
  | right => rw [if_neg (by decide)]

/-- The red tree that the loop looks at. -/
structure RedFocus (T : Rbtree) (path : TreePath Item) (t : ColorTree Item) (n : ℕ) : Prop where
  holds : Holds T path t
  red : t.color = .red
  balanced : t.Balanced n
  above : path.Balanced n

theorem RedFocus.exit (focus : RedFocus T path t n) (black : path.color = .black) :
    insertFixupLoop (T, ptrOf T.nil t) = .inr T := by
  have not_red : (T.node (T.node (ptrOf T.nil t)).parent).color ≠ RED := by
    rw [focus.holds.parent_above (nonempty_of_red focus.red), focus.holds.color_above, black]
    decide
  rw [insertFixupLoop]
  exact if_neg not_red

/-- A round leaves a red tree further up. -/
theorem RedFocus.round
    (focus : RedFocus T (⟨side, .red, p, sibling⟩ :: ⟨s, .black, g, uncle⟩ :: up) t n) :
    ∃ T' path' t' m, insertFixupRound T s (ptrOf T.nil t) = (T', ptrOf T'.nil t') ∧ T'.nil = T.nil ∧
      RedFocus T' path' t' m ∧ path'.length < up.length + 2 ∧
      (path'.fill t').inorder =
        (up.fill (join s .black (join side .red t p sibling) g uncle)).inorder := by
  obtain ⟨holds, red, balanced, above⟩ := focus
  have nonempty := nonempty_of_red red
  cases uncle_color : uncle.color with
  | red =>
    obtain ⟨T', equal, nil, holds'⟩ := insertFixupRound_red holds nonempty uncle_color
    obtain ⟨balanced', above'⟩ := recolor_balanced above rfl rfl balanced uncle_color
    refine ⟨T', up, _, _, ?_, nil, ⟨holds', color_join .., balanced', above'⟩, by omega, ?_⟩
    · rw [equal, ptrOf_join]
    · refine TreePath.inorder_fill_congr up (inorder_join_congr _ _ _ _ _ _ ?_ (inorder_paint ..))
      exact inorder_join_congr _ _ _ _ _ _ rfl rfl
  | black =>
    obtain ⟨T', t', item, far, equal, outer⟩ : ∃ T' t' item far, insertFixupRound T s
      (ptrOf T.nil t) = (T', ptrOf T.nil t') ∧
        Outer T T' up s g uncle (join side .red t p sibling) t' n item far := by
      by_cases same : side = s
      · subst same
        obtain ⟨T', equal, outer⟩ := insertFixupRound_outer holds red balanced above uncle_color
        exact ⟨T', t, p, sibling, equal, outer⟩
      · obtain rfl := Side.eq_other_of_ne same
        exact insertFixupRound_inner holds red balanced above uncle_color
    have above' := rotate_balanced above rfl rfl uncle_color item outer.far_color outer.far_balanced
    refine ⟨T', _, t', n, ?_, outer.nil, ⟨outer.holds, outer.color, outer.balanced, above'⟩, ?_, ?_⟩
    · rw [equal, outer.nil]
    · rw [List.length_cons]
      omega
    · exact TreePath.inorder_fill_congr up outer.inorder

/-- The loop returns, and leaves a tree with a hole below a black node and a red tree in it. -/
theorem insertFixupLoop_returns (focus : RedFocus T path t n) :
    ∃ T' path' t' m, Loop.Returns insertFixupLoop (T, ptrOf T.nil t) T' ∧ T'.nil = T.nil ∧
    RedFocus T' path' t' m ∧
      path'.color = .black ∧ (path'.fill t').inorder = (path.fill t).inorder := by
  induction length : path.length using Nat.strong_induction_on generalizing T path t n with
  | h _ ih =>
    cases color : path.color with
    | black => exact ⟨T, path, t, n, Loop.returns_of_exit (focus.exit color), rfl, focus, color, rfl⟩
    | red =>
      obtain ⟨⟨side, cp, p, sibling⟩, ⟨s, cg, g, uncle⟩, up, rfl, hp, hg⟩ := focus.above.grandparent color
      obtain rfl : cp = .red := hp
      obtain rfl : cg = .black := hg
      have round := insertFixupLoop_round focus.holds (nonempty_of_red focus.red)
      obtain ⟨T₁, path₁, t₁, m₁, equal, nil₁, focus₁, less, inorder₁⟩ := focus.round
      obtain ⟨T', path', t', m, returns, nil', focus', black, inorder⟩ := ih path₁.length
        (by simp only [← length, List.length_cons]; omega) focus₁ rfl
      refine ⟨T', path', t', m, ?_, nil'.trans nil₁, focus', black, inorder.trans inorder₁⟩
      rw [equal] at round
      exact (Loop.returns_iff_of_round round _).mpr returns

/-- What the memory holds is a balanced tree with a black root. -/
structure Represents (T : Rbtree) (t : ColorTree Item) : Prop where
  holds : Holds T [] t
  fits : ∃ n, TreePath.Fits [] t n

/-- `rbtree_insert_fixup` balances the tree again. -/
theorem rbtree_insert_fixup_computes (focus : RedFocus T path t n) :
    ∃ T' t', Computes (fun fuel => rbtree_insert_fixup T fuel (ptrOf T.nil t)) T' ∧ T'.nil = T.nil ∧
    Represents T' t' ∧
      t'.inorder = (path.fill t).inorder := by
  obtain ⟨T', path', t', m, returns, nil, focus', color, inorder⟩ := insertFixupLoop_returns focus
  have whole := holds_fill.mpr focus'.holds
  have root : T'.root = ptrOf T'.nil (path'.fill t') := whole.root
  have painted := whole.paint_black
  rw [← root] at painted
  refine ⟨_, (path'.fill t').paint .black, (Computes.of_returns returns).map, nil, ⟨painted, ?_⟩, ?_⟩
  · exact TreePath.paint_root focus'.above focus'.balanced color
  · rw [inorder_paint, inorder]

end LinuxZero.Trees
