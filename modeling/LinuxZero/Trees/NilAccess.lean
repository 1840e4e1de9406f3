import LinuxZero.Trees.DeleteFixup
import LinuxZero.Trees.Recorded

/-! # What balancing does with `nil`

In a balanced tree a red node below a red one has a grandparent, and a tree that is one black node short has a
sibling with nodes. So the rounds of both loops read children of real nodes only, and the parent of `nil`
only where the loop has come to `nil`.
-/

namespace LinuxZero

open Trees RedBlack ColorTree

variable {T : Rbtree} {nil n w x z : ℕ} {op : Writer} {nodes : List ℕ} {facts : List Access}
  {s side : Side} {c : Color} {t sibling uncle : ColorTree Item}
  {p g : Item} {path up : TreePath Item}

namespace Performs

theorem readGrandparent (lower : z ≠ nil) (middle : (T.node z).parent ≠ nil)
    (upper : (T.node (T.node z).parent).parent ∈ nodes) :
    Follows nil op nodes facts T (Trees.readGrandparent z) (T.node (T.node z).parent).parent T := by
  refine .bind (.readParent (Or.inl lower)) (.bind (.readParent (Or.inl middle)) ?_)
  exact .bind (.note fun _ _ => upper) (.pure _)

theorem readSibling (known : ParentKnown nil facts x) (upper : (T.node x).parent ≠ nil)
    (real : (T.node (T.node x).parent).child side.other ∈ nodes) :
    Follows nil op nodes facts T (Trees.readSibling side x)
      ((T.node (T.node x).parent).child side.other) T := by
  refine .bind (.readParent known) (.bind (.readChild upper) ?_)
  exact .bind (.note fun _ _ => real) (.pure _)

end Performs

namespace Trees

section Insertion

/-- A node, its parent and its grandparent. -/
structure Family (nil : ℕ) (nodes : List ℕ) (T : Rbtree) (s : Side) (z p g : ℕ) : Prop where
  same : T.nil = nil
  lower : z ≠ nil
  middle : p ≠ nil
  upper : g ≠ nil
  listed : g ∈ nodes
  parent : (T.node z).parent = p
  grandparent : (T.node p).parent = g
  child : (T.node g).child s = p

theorem Holds.real {frame : Frame Item} (holds : Holds T (frame :: path) t) :
    frame.item.ptr ≠ T.nil := fun null =>
  (holds_cons.mp holds).nonnil_tree (mem_treePtrs_join.mpr (Or.inl null.symm))

theorem Holds.real_tree (holds : Holds T path t) (nonempty : t ≠ .leaf) :
    ptrOf T.nil t ≠ T.nil := fun null =>
  holds.nonnil_tree (null ▸ ptrOf_mem nonempty)

theorem Holds.family {c' : Color}
    (holds : Holds T (⟨side, c, p, sibling⟩ :: ⟨s, c', g, uncle⟩ :: up) t) (nonempty : t ≠ .leaf)
    (within : treePtrs (TreePath.fill (⟨side, c, p, sibling⟩ :: ⟨s, c', g, uncle⟩ :: up) t) ⊆
      nodes) :
    Family T.nil nodes T s (ptrOf T.nil t) p.ptr g.ptr where
  same := rfl
  lower := holds.real_tree nonempty
  middle := holds.real
  upper := (holds_cons.mp holds).real
  listed := within (by simp only [mem_treePtrs_fill, mem_pathPtrs_cons]; tauto)
  parent := holds.parent_above nonempty
  grandparent := holds.cell_above.parent
  child := (holds_cons.mp holds).cell_above.near.trans ptrOf_join

variable {pp gp : ℕ}

theorem Family.readGrandparent (family : Family nil nodes T s z pp gp) :
    Follows nil op nodes facts T (Trees.readGrandparent z) gp T := by
  have reads : Follows nil op nodes facts T _ _ T := Performs.readGrandparent family.lower
    (family.parent ▸ family.middle)
    (family.parent ▸ family.grandparent ▸ family.listed)
  rwa [family.parent, family.grandparent] at reads

theorem Family.setColor (family : Family nil nodes T s z pp gp) (p : ℕ) (color : UInt8) :
    Family nil nodes (T.setColor p color) s z pp gp where
  same := family.same
  lower := family.lower
  middle := family.middle
  upper := family.upper
  listed := family.listed
  parent := parent_node_setColor.trans family.parent
  grandparent := parent_node_setColor.trans family.grandparent
  child := child_node_setColor.trans family.child

theorem Family.blackUncle {T₁ : Rbtree} {z₁ pp₁ : ℕ}
    (inner : Follows nil op nodes facts T (recordInnerChild s z) z₁ T₁)
    (family : Family nil nodes T₁ s z₁ pp₁ gp) :
    Follows nil op nodes facts T (recordBlackUncle s z) z₁
      (rotate ((T₁.setColor pp₁ BLACK).setColor gp RED) s.other gp) := by
  have second := family.setColor pp₁ BLACK
  have third := second.setColor gp RED
  have parent : Follows nil op nodes facts T₁ (readParent z₁) pp₁ T₁ :=
    .readParent_eq (Or.inl family.lower) family.parent
  refine .bind inner (.bind parent (.bind (.writeColor (Or.inl family.middle)) ?_))
  refine .bind second.readGrandparent
    (.bind (.writeColor (Or.inl family.upper)) (.bind third.readGrandparent ?_))
  refine .bind (.rotate third.same third.upper ?_) (.pure _)
  rw [Side.other_other, third.child]
  exact third.middle

/-- The round with a black uncle, when the node is an outer child or after it has become one. -/
theorem Family.insertFixupRound_eq {T₁ : Rbtree} {z₁ pp₁ : ℕ} (family : Family nil nodes T s z pp gp)
    (black : (T.node ((T.node gp).child s.other)).color ≠ RED)
    (inner : (if z = (T.node pp).child s.other then (rotate T s pp, pp) else (T, z)) = (T₁, z₁))
    (family₁ : Family nil nodes T₁ s z₁ pp₁ gp) :
    insertFixupRound T s z = (rotate ((T₁.setColor pp₁ BLACK).setColor gp RED) s.other gp, z₁) := by
  rw [insertFixupRound]
  simp only [family.parent, family.grandparent, if_neg black, inner, parent_node_setColor, family₁.parent,
    family₁.grandparent]

theorem insertFixupRound_follows
    (focus : RedFocus T (⟨side, .red, p, sibling⟩ :: ⟨s, .black, g, uncle⟩ :: up) t n)
    (within : treePtrs (TreePath.fill (⟨side, .red, p, sibling⟩ :: ⟨s, .black, g, uncle⟩ :: up) t) ⊆
      nodes) :
    Follows T.nil op nodes facts T (recordInsertFixupRound s (ptrOf T.nil t))
      (insertFixupRound T s (ptrOf T.nil t)).2 (insertFixupRound T s (ptrOf T.nil t)).1 := by
  have nonempty := nonempty_of_red focus.red
  have family := focus.holds.family nonempty within
  have parent : Follows T.nil op nodes facts T (readParent (ptrOf T.nil t)) p.ptr T :=
    .readParent_eq (Or.inl family.lower) family.parent
  refine .bind family.readGrandparent (.bind (.readChild family.upper) (.bind .readColor ?_))
  by_cases red : (T.node ((T.node g.ptr).child s.other)).color = RED
  · have round : insertFixupRound T s (ptrOf T.nil t) =
        (((T.setColor p.ptr BLACK).setColor ((T.node g.ptr).child s.other) BLACK).setColor g.ptr
        RED, g.ptr) := by
      rw [insertFixupRound]
      simp only [family.parent, family.grandparent, red, if_true]
    rw [round]
    have second := (family.setColor p.ptr BLACK).setColor ((T.node g.ptr).child s.other) BLACK
    refine .of_pos red (.bind parent
      (.bind (.writeColor (Or.inr rfl)) (.bind (.writeColor (Or.inr rfl)) ?_)))
    refine .bind second.readGrandparent (.bind (.writeColor (Or.inl family.upper)) ?_)
    exact (second.setColor g.ptr RED).readGrandparent
  · refine .of_neg red ?_
    by_cases same : side = s
    · subst same
      have outer : ptrOf T.nil t ≠ (T.node p.ptr).child side.other := fun equal =>
        side.other_ne ((focus.holds.side_iff (Or.inl nonempty) side.other).mp equal).symm
      rw [Family.insertFixupRound_eq family red (if_neg outer) family]
      exact family.blackUncle (.bind parent (.bind (.readChild family.middle) (.of_neg outer (.pure _))))
    · obtain rfl := Side.eq_other_of_ne same
      obtain ⟨a, z, b, shape⟩ := exists_join s nonempty
      rw [focus.red] at shape
      have inner : ptrOf T.nil t = (T.node p.ptr).child s.other := focus.holds.cell_above.near.symm
      have exchanged := (Holds.exchange (shape ▸ focus.holds)).family
        (nonempty_of_red (color_join ..)) (show _ ⊆ nodes by
        refine List.Subset.trans (fun q => ?_) within
        rw [shape]
        simp only [mem_treePtrs_fill, mem_pathPtrs_cons, mem_treePtrs_join]
        tauto)
      rw [nil_rotate, ptrOf_join] at exchanged
      rw [Family.insertFixupRound_eq family red (if_pos inner) exchanged]
      refine exchanged.blackUncle
        (.bind parent (.bind (.readChild family.middle) (.of_pos inner (.bind parent ?_))))
      exact .bind (.rotate rfl family.middle (inner ▸ family.lower)) (.pure _)

/-- The states of the loop. -/
def InsertFocus (nil : ℕ) (nodes : List ℕ) : Rbtree × ℕ → Prop
  | (T, z) => T.nil = nil ∧ ∃ path t n, z = ptrOf T.nil t ∧ RedFocus T path t n ∧
      treePtrs (path.fill t) ⊆ nodes

theorem InsertFocus.keeps {u v : Rbtree × ℕ} (focus : InsertFocus nil nodes u)
    (round : insertFixupLoop u = .inl v) :
    InsertFocus nil nodes v := by
  obtain ⟨T, z⟩ := u
  obtain ⟨rfl, path, t, n, rfl, focus, within⟩ := focus
  cases color : path.color with
  | black => exact nomatch (focus.exit color).symm.trans round
  | red =>
    obtain ⟨⟨side, cp, p, sibling⟩, ⟨s, cg, g, uncle⟩, up, rfl, hp, hg⟩ := focus.above.grandparent color
    obtain rfl : cp = .red := hp
    obtain rfl : cg = .black := hg
    rw [insertFixupLoop_round focus.holds (nonempty_of_red focus.red)] at round
    obtain ⟨T', path', t', m, equal, nil', focus', -, inorder⟩ := focus.round
    rw [equal] at round
    obtain rfl := Sum.inl.inj round
    refine ⟨nil', path', t', m, rfl, focus', ?_⟩
    rwa [treePtrs, inorder]

/-- A round of the loop with the record. -/
theorem InsertFocus.mirrors {u : Rbtree × ℕ} (focus : InsertFocus nil nodes u) :
    Mirrors (Access.Permitted nil op nodes) facts Prod.fst Prod.snd id
    (fun _ : Rbtree => PUnit.unit) recordInsertFixupBody u
      (insertFixupLoop u) := by
  obtain ⟨T, z⟩ := u
  obtain ⟨rfl, path, t, n, rfl, focus, within⟩ := focus
  have nonempty := nonempty_of_red focus.red
  have parent : Follows T.nil op nodes facts T (readParent (ptrOf T.nil t)) (parentOf T.nil path) T :=
    .readParent_eq (Or.inl (focus.holds.real_tree nonempty)) (focus.holds.parent_above nonempty)
  have color_above := focus.holds.color_above
  cases color : path.color with
  | black =>
    rw [focus.exit color]
    refine .bind parent (.bind .readColor (.of_neg ?_ (.pure _)))
    rw [color_above, color]
    decide
  | red =>
    rw [color] at color_above
    obtain ⟨⟨side, cp, p, sibling⟩, ⟨s, cg, g, uncle⟩, up, rfl, hp, hg⟩ := focus.above.grandparent color
    obtain rfl : cp = .red := hp
    obtain rfl : cg = .black := hg
    have family := focus.holds.family nonempty within
    have round : Follows T.nil op nodes facts T _ _ _ := insertFixupRound_follows focus within
    rw [insertFixupLoop_round focus.holds nonempty]
    have left : p.ptr = (T.node g.ptr).left ↔ s = .left := by
      have iff := (holds_cons.mp focus.holds).side_iff (Or.inl (nonempty_of_red (color_join ..))) .left
      rwa [ptrOf_join] at iff
    refine .bind parent (.bind .readColor (.of_pos color_above ?_))
    refine .bind parent (.bind family.readGrandparent (.bind (.readChild family.upper) ?_))
    cases s with
    | left => exact .of_pos (left.mpr rfl) (.bind round (.pure _))
    | right => exact .of_neg (fun equal => nomatch left.mp equal) (.bind round (.pure _))

/-- `rbtree_insert_fixup` with the record. -/
theorem insertFixup_completes {T' : Rbtree} (focus : RedFocus T path t n)
    (within : treePtrs (path.fill t) ⊆ nodes)
    (returns : Loop.Returns insertFixupLoop (T, ptrOf T.nil t) T') :
    Completes (Access.Permitted T.nil op nodes) facts T
      (fun fuel => recordInsertFixup fuel (ptrOf T.nil t)) ⟨⟩
      (T'.setColor T'.root BLACK) := by
  have loop : Completes (Access.Permitted T.nil op nodes) facts _ _ _ _ :=
    Completes.loop (InsertFocus T.nil nodes) (fun _ _ focus round => focus.keeps round)
    (fun _ focus => focus.mirrors) returns ⟨rfl, path, t, n, rfl, focus, within⟩
  exact loop.bind (Performs.completes (.bind .readRoot (.writeColor (Or.inr rfl))))

end Insertion

section Deletion

/-- The node has a parent, and the parent has another child. -/
def SiblingReal (nil : ℕ) (nodes : List ℕ) (T : Rbtree) (side : Side) (x : ℕ) : Prop :=
  (T.node x).parent ≠ nil ∧ (T.node (T.node x).parent).child side.other ≠ nil ∧
    (T.node (T.node x).parent).child side.other ∈ nodes

theorem SiblingReal.setColor (real : SiblingReal nil nodes T side x) (p : ℕ) (color : UInt8) :
    SiblingReal nil nodes (T.setColor p color) side x := by
  rw [SiblingReal, parent_node_setColor, child_node_setColor]
  exact real

theorem Focused.siblingReal (focused : Focused T (⟨s, c, p, sibling⟩ :: up) t)
    (nonempty : sibling ≠ .leaf)
    (within : treePtrs (TreePath.fill (⟨s, c, p, sibling⟩ :: up) t) ⊆ nodes) :
    SiblingReal T.nil nodes T s (ptrOf T.nil t) := by
  have link : (T.node (ptrOf T.nil t)).parent = p.ptr := focused.link
  rw [SiblingReal, link, focused.cell_above.far]
  refine ⟨focused.real, (holds_cons_other.mpr (holds_cons.mp focused.toHolds)).real_tree nonempty,
    within ?_⟩
  have member : ptrOf T.nil sibling ∈ treePtrs sibling := ptrOf_mem nonempty
  simp only [mem_treePtrs_fill, mem_pathPtrs_cons]
  tauto

theorem redSibling_follows (same : T.nil = nil) (known : ParentKnown nil facts x)
    (real : SiblingReal nil nodes T side x)
    (after : (T.node w).color = RED → SiblingReal nil nodes (redSibling T side x w).1 side x) :
    Follows nil op nodes facts T (recordRedSibling side x w)
      (redSibling T side x w).2 (redSibling T side x w).1 := by
  refine .bind .readColor ?_
  by_cases red : (T.node w).color = RED
  · have round : redSibling T side x w = _ := if_pos red
    rw [round] at after ⊢
    refine .of_pos red (.bind (.writeColor (Or.inr rfl))
      (.bind (.readParent_eq known parent_node_setColor) ?_))
    refine .bind (.writeColor (Or.inl real.1))
      (.bind (.readParent_eq known ?_) (.bind (.rotate same real.1 ?_) ?_))
    · simp only [parent_node_setColor]
    · simp only [child_node_setColor]
      exact real.2.1
    · exact .readSibling known (after red).1 (after red).2.2
  · have round : redSibling T side x w = _ := if_neg red
    rw [round]
    exact .of_neg red (.pure _)

theorem redNearChild_follows (same : T.nil = nil) (known : ParentKnown nil facts x) (real : w ≠ nil)
    (near : (T.node ((T.node w).child side.other)).color = BLACK →
      (T.node w).child side ≠ nil ∧ SiblingReal nil nodes (redNearChild T side x w).1 side x) :
    Follows nil op nodes facts T (recordRedNearChild side x w)
      (redNearChild T side x w).2 (redNearChild T side x w).1 := by
  refine .bind (.readChild real) (.bind .readColor ?_)
  by_cases black : (T.node ((T.node w).child side.other)).color = BLACK
  · have round : redNearChild T side x w = _ := if_pos black
    rw [round] at near ⊢
    obtain ⟨child, after⟩ := near black
    refine .of_pos black
      (.bind (.readChild real)
        (.bind (.writeColor (Or.inr rfl)) (.bind (.writeColor (Or.inl real)) ?_)))
    refine .bind (.rotate same real ?_) (.readSibling known after.1 after.2.2)
    simp only [child_node_setColor, Side.other_other]
    exact child
  · have round : redNearChild T side x w = _ := if_neg black
    rw [round]
    exact .of_neg black (.pure _)

theorem redFarChild_follows (same : T.nil = nil) (known : ParentKnown nil facts x)
    (real : SiblingReal nil nodes T side x) (sibling : w ≠ nil) :
    Follows nil op nodes facts T (recordRedFarChild side x w) ⟨⟩ (redFarChild T side x w) := by
  have first := real.setColor w (T.node (T.node x).parent).color
  have second := first.setColor ((T.setColor w (T.node (T.node x).parent).color).node x).parent BLACK
  refine .bind (.readParent known) (.bind .readColor (.bind (.writeColor (Or.inl sibling)) ?_))
  refine .bind (.readParent known) (.bind (.writeColor (Or.inr rfl)) (.bind (.readChild sibling) ?_))
  refine .bind (.writeColor (Or.inr rfl)) (.bind (.readParent known) ?_)
  exact .rotate same (second.setColor _ BLACK).1 (second.setColor _ BLACK).2.1

theorem blackChildren_follows (real : w ≠ nil) (side : Side) :
    Follows nil op nodes facts T (recordBlackChildren w)
      (decide ((T.node ((T.node w).child side)).color = BLACK ∧
      (T.node ((T.node w).child side.other)).color = BLACK)) T := by
  have order : ((T.node ((T.node w).child side)).color = BLACK ∧
    (T.node ((T.node w).child side.other)).color = BLACK) ↔
      (T.node ((T.node w).child .left)).color = BLACK ∧
      (T.node ((T.node w).child .right)).color = BLACK := by
    cases side with
    | left => exact Iff.rfl
    | right => exact And.comm
  refine .bind (.readChild real) (.bind .readColor ?_)
  by_cases left : (T.node ((T.node w).child .left)).color = BLACK
  · rw [decide_eq_decide.mpr (order.trans (and_iff_right left))]
    exact .of_pos left (.bind (.readChild real) (.bind .readColor (.pure _)))
  · rw [decide_eq_false fun both => left (order.mp both).1]
    exact .of_neg left (.pure _)

variable {near far : ColorTree Item} {v : Item}

/-- The sibling is black. -/
theorem blackSibling_follows (focused : Focused T (⟨s, c, p, join s .black near v far⟩ :: up) t)
    (above : TreePath.Balanced (⟨s, c, p, join s .black near v far⟩ :: up) (n + 1))
    (within : treePtrs (TreePath.fill (⟨s, c, p, join s .black near v far⟩ :: up) t) ⊆ nodes)
    (known : ParentKnown T.nil facts (ptrOf T.nil t)) :
    Follows T.nil op nodes facts T (recordBlackSibling s (ptrOf T.nil t) v.ptr)
      (blackSibling T s (ptrOf T.nil t) v.ptr).2
      (blackSibling T s (ptrOf T.nil t) v.ptr).1 := by
  have sibling := holds_cons_other.mpr (holds_cons.mp focused.toHolds)
  have real : v.ptr ≠ T.nil := by
    have nonnil := sibling.real_tree join_ne_leaf
    rwa [ptrOf_join] at nonnil
  have near_color : (T.node ((T.node v.ptr).child s)).color = BLACK ↔ near.color = .black := by
    rw [sibling.cell.near, (holds_cons.mpr sibling).color, byte_eq_black]
  have far_color : (T.node ((T.node v.ptr).child s.other)).color = BLACK ↔ far.color = .black := by
    rw [sibling.cell.far, (holds_cons_other.mpr sibling).color, byte_eq_black]
  refine .bind (blackChildren_follows real s) ?_
  by_cases both : (T.node ((T.node v.ptr).child s)).color = BLACK ∧
    (T.node ((T.node v.ptr).child s.other)).color = BLACK
  · have round : blackSibling T s (ptrOf T.nil t) v.ptr = _ := if_pos both
    rw [round]
    refine .of_pos (decide_eq_true both) (.bind (.writeColor (Or.inl real)) (.readParent_eq known ?_))
    exact parent_node_setColor
  · have round : blackSibling T s (ptrOf T.nil t) v.ptr = _ := if_neg both
    rw [round]
    rw [near_color, far_color] at both
    obtain ⟨T', near', w', far', equal, nil, focused', above', red, inorder⟩ :=
      redNearChild_spec focused above both
    have same_ptrs : treePtrs (join s .black near' w' far') = treePtrs (join s .black near v far) :=
      congrArg (List.map _) inorder
    have siblingReal := focused'.siblingReal join_ne_leaf (show _ ⊆ nodes by
      refine List.Subset.trans (fun q => ?_) within
      simp only [mem_treePtrs_fill, mem_pathPtrs_cons, same_ptrs, imp_self])
    have real' : w'.ptr ≠ T'.nil := by
      have nonnil := (holds_cons_other.mpr (holds_cons.mp focused'.toHolds)).real_tree join_ne_leaf
      rwa [ptrOf_join] at nonnil
    rw [nil] at siblingReal real'
    have first : Follows T.nil op nodes facts T (recordRedNearChild s (ptrOf T.nil t) v.ptr) _ _ :=
      redNearChild_follows rfl known real (by
      rw [equal, far_color]
      refine fun black => ⟨?_, siblingReal⟩
      rw [sibling.cell.near]
      exact (holds_cons.mpr sibling).real_tree
        (nonempty_of_red (by_contra fun notRed => both ⟨(Color.eq_black_iff _).mpr notRed, black⟩)))
    rw [equal] at first ⊢
    exact .of_neg (by rw [decide_eq_true_eq, near_color, far_color]; exact both)
      (.bind first (.bind (redFarChild_follows nil known siblingReal real') .readRoot))

theorem deleteFixupRound_follows (focused : Focused T (⟨s, c, p, sibling⟩ :: up) t)
    (above : TreePath.Balanced (⟨s, c, p, sibling⟩ :: up) (n + 1))
    (within : treePtrs (TreePath.fill (⟨s, c, p, sibling⟩ :: up) t) ⊆ nodes)
    (known : ParentKnown T.nil facts (ptrOf T.nil t)) :
    Follows T.nil op nodes facts T (recordDeleteFixupRound s (ptrOf T.nil t))
      (deleteFixupRound T s (ptrOf T.nil t)).2
      (deleteFixupRound T s (ptrOf T.nil t)).1 := by
  have nonempty : sibling ≠ .leaf := above.sibling.nonempty
  have real := focused.siblingReal nonempty within
  have link : (T.node (ptrOf T.nil t)).parent = p.ptr := focused.link
  have sibling_ptr : (T.node p.ptr).child s.other = ptrOf T.nil sibling := focused.cell_above.far
  obtain ⟨near, v, far, shape⟩ := exists_join s nonempty
  have round := deleteFixupRound_eq focused
  rw [shape, ptrOf_join] at round
  have first : Follows T.nil op nodes facts T (readSibling s (ptrOf T.nil t)) v.ptr T := by
    have reads : Follows T.nil op nodes facts T _ _ T := Performs.readSibling known real.1 real.2.2
    rwa [link, sibling_ptr, shape, ptrOf_join] at reads
  rw [round]
  refine .bind first ?_
  cases color : sibling.color with
  | red =>
    rw [color] at shape
    subst shape
    obtain ⟨rfl, near_black, above'⟩ := red_sibling_balanced above
    obtain ⟨T₁, equal, nil₁, focused₁⟩ := redSibling_red focused
    have nonempty' : near ≠ .leaf := above'.sibling.nonempty
    have within₁ : treePtrs (TreePath.fill (⟨s, .red, p, near⟩ :: ⟨s, .black, v, far⟩ :: up) t) ⊆
      nodes := by
      refine List.Subset.trans (fun q => ?_) within
      simp only [mem_treePtrs_fill, mem_pathPtrs_cons, mem_treePtrs_join]
      tauto
    have real₁ := focused₁.siblingReal nonempty' within₁
    rw [nil₁] at real₁
    have second : Follows T.nil op nodes facts T (recordRedSibling s (ptrOf T.nil t) v.ptr) _ _ :=
      redSibling_follows rfl known real (by rw [equal]; exact fun _ => real₁)
    obtain ⟨near', v', far', shape'⟩ := exists_join s nonempty'
    rw [near_black] at shape'
    subst shape'
    rw [equal, ptrOf_join] at second ⊢
    have third : Follows T₁.nil op nodes facts T₁ _ _ _ :=
      blackSibling_follows focused₁ above' within₁ (nil₁ ▸ known)
    rw [nil₁] at third
    exact .bind second third
  | black =>
    rw [color] at shape
    subst shape
    have not_red : (T.node v.ptr).color ≠ RED := by
      rw [(holds_cons_other.mpr (holds_cons.mp focused.toHolds)).cell.color]
      decide
    have same : redSibling T s (ptrOf T.nil t) v.ptr = (T, v.ptr) := if_neg not_red
    have second : Follows T.nil op nodes facts T (recordRedSibling s (ptrOf T.nil t) v.ptr) _ _ :=
      redSibling_follows rfl known real fun red => absurd red not_red
    rw [same] at second ⊢
    exact .bind second (blackSibling_follows focused above within known)

/-- The states of the loop. -/
def DeleteFocus (nil : ℕ) (nodes : List ℕ) (facts : List Access) : Rbtree × ℕ → Prop
  | (T, x) => T.nil = nil ∧ ParentKnown nil facts x ∧
    ∃ path t n, x = ptrOf T.nil t ∧ Focused T path t ∧ Short t n ∧ path.Balanced (n + 1) ∧
    treePtrs (path.fill t) ⊆ nodes

theorem DeleteFocus.keeps {u v : Rbtree × ℕ} (focus : DeleteFocus nil nodes facts u)
    (round : deleteFixupLoop u = .inl v) :
    DeleteFocus nil nodes facts v := by
  obtain ⟨T, x⟩ := u
  obtain ⟨rfl, -, path, t, n, rfl, focused, short, above, within⟩ := focus
  by_cases stop : path = [] ∨ t.color = .red
  · exact nomatch (deleteFixupLoop_exit focused stop).symm.trans round
  · obtain ⟨⟨s, c, p, sibling⟩, up, rfl, black, balanced⟩ := short_inside short stop
    rw [deleteFixupLoop_round focused black above.sibling.nonempty] at round
    obtain ⟨T', path', t', m, equal, nil', focused', nonempty, ⟨short', above'⟩, inorder, -⟩ :=
      deleteFixupRound_spec focused balanced above
    rw [equal] at round
    obtain rfl := Sum.inl.inj round
    rw [← nil']
    refine ⟨rfl, Or.inl (focused'.real_tree nonempty), path', t', m, rfl, focused', short', above', ?_⟩
    rwa [treePtrs, inorder]

theorem DeleteFocus.mirrors {u : Rbtree × ℕ} (focus : DeleteFocus nil nodes facts u) :
    Mirrors (Access.Permitted nil op nodes) facts Prod.fst Prod.snd Prod.fst Prod.snd
    recordDeleteFixupBody u (deleteFixupLoop u) := by
  obtain ⟨T, x⟩ := u
  obtain ⟨rfl, known, path, t, n, rfl, focused, short, above, within⟩ := focus
  by_cases stop : path = [] ∨ t.color = .red
  · rw [deleteFixupLoop_exit focused stop]
    refine .bind .readRoot ?_
    by_cases root : ptrOf T.nil t = T.root
    · exact .of_neg (not_not.mpr root) (.pure _)
    · have red : t.color = .red := stop.resolve_left fun empty => root (empty ▸ focused.root).symm
      refine .of_pos root (.bind .readColor (.of_neg ?_ (.pure _)))
      rw [focused.color, red]
      decide
  · obtain ⟨⟨s, c, p, sibling⟩, up, rfl, black, balanced⟩ := short_inside short stop
    have nonempty := above.sibling.nonempty
    rw [deleteFixupLoop_round focused black nonempty]
    have round : Follows T.nil op nodes facts T _ _ _ :=
      deleteFixupRound_follows focused above within known
    have color : (T.node (ptrOf T.nil t)).color = BLACK := focused.color.trans (congrArg byte black)
    have left : ptrOf T.nil t = (T.node p.ptr).left ↔ s = .left :=
      focused.side_iff (Or.inr nonempty) .left
    refine .bind .readRoot (.of_pos focused.ne_root (.bind .readColor (.of_pos color ?_)))
    refine .bind (.readParent_eq known focused.link) (.bind (.readChild focused.real) ?_)
    cases s with
    | left => exact .of_pos (left.mpr rfl) (.bind round (.pure _))
    | right => exact .of_neg (fun equal => nomatch left.mp equal) (.bind round (.pure _))

/-- `rbtree_delete_fixup` with the record. -/
theorem deleteFixup_completes {r : Rbtree × ℕ} (focused : Focused T path t) (short : Short t n)
    (above : path.Balanced (n + 1)) (within : treePtrs (path.fill t) ⊆ nodes)
    (known : ParentKnown T.nil facts (ptrOf T.nil t))
    (returns : Loop.Returns deleteFixupLoop (T, ptrOf T.nil t) r) :
    Completes (Access.Permitted T.nil op nodes) facts T
      (fun fuel => recordDeleteFixup fuel (ptrOf T.nil t)) ⟨⟩ (r.1.setColor r.2 BLACK) := by
  have loop : Completes (Access.Permitted T.nil op nodes) facts _ _ _ _ :=
    Completes.loop (DeleteFocus T.nil nodes facts) (fun _ _ focus round => focus.keeps round)
    (fun _ focus => focus.mirrors) returns
    ⟨rfl, known, path, t, n, rfl, focused, short, above, within⟩
  exact loop.bind (Performs.completes (.writeColor (Or.inr rfl)))

end Deletion

end Trees

end LinuxZero
