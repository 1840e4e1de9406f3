import LinuxZero.Lib.OrderedTree
import LinuxZero.Lib.RedBlack
import Mathlib.Data.List.Nodup
import Mathlib.Logic.Function.Basic

/-! # Trees with parent pointers

The pointers of a binary tree in memory are one map from slots to addresses. A subtree hangs below the slot
that points to it; what happens within its own slots changes the subtree and nothing else of the tree. A
rotation writes to three edges, and the rotation back undoes it.
-/

namespace LinuxZero.LinkedTree

open OrderedTree

/-- A pointer of a tree: the one to its root, or a field of a node. -/
inductive Slot (α : Type*)
  | root
  | child (side : Side) (p : α)
  | parent (p : α)
deriving DecidableEq, Repr

variable {α : Type*}

/-- The slot is a field of one of these nodes. -/
def Slot.In (nodes : List α) : Slot α → Prop
  | .root => False
  | .child _ p => p ∈ nodes
  | .parent p => p ∈ nodes

/-- The tree whose child on the side is `near`. -/
def join (side : Side) (p : α) (near far : BinaryTree α) : BinaryTree α :=
  match side with
  | .left => .node p near far
  | .right => .node p far near

/-- The slot points to this tree, whose nodes know their parents. -/
def LinkedBelow (load : Slot α → α) (nil : α) : α → Slot α → BinaryTree α → Prop
  | _, down, .nil => load down = nil
  | parent, down, .node p left right => load down = p ∧ p ≠ nil ∧ load (.parent p) = parent ∧
      LinkedBelow load nil p (.child .left p) left ∧ LinkedBelow load nil p (.child .right p) right

/-- A whole tree; the parent of its root is `nil`. -/
structure Linked (load : Slot α → α) (nil : α) (t : BinaryTree α) : Prop where
  below : LinkedBelow load nil nil .root t
  nodup : (inorder t).Nodup

/-- Where a subtree with these nodes may hang: neither its parent nor its sibling is one of them. -/
def Place (load : Slot α → α) (nil parent : α) (nodes : List α) : Slot α → Prop
  | .root => parent = nil
  | .child side p => p = parent ∧ p ≠ nil ∧ p ∉ nodes ∧ load (.child side.other p) ∉ nodes
  | .parent _ => False

/-- A subtree of a tree. -/
structure Hangs (load : Slot α → α) (nil parent : α) (down : Slot α) (t : BinaryTree α) : Prop where
  below : LinkedBelow load nil parent down t
  nodup : (inorder t).Nodup
  place : Place load nil parent (inorder t) down

/-- The pointers of a subtree: the one to it, and the fields of its nodes. -/
def Owned (down : Slot α) (t : BinaryTree α) (slot : Slot α) : Prop := slot = down ∨ slot.In (inorder t)

variable {load load' : Slot α → α} {nil parent parent' p x y : α} {down down' slot : Slot α} {side : Side}
  {t near near' far a b d : BinaryTree α}

theorem Slot.In.ne {nodes : List α} {other : Slot α} (isIn : slot.In nodes)
    (notIn : ¬ other.In nodes) : slot ≠ other := by
  rintro rfl
  exact notIn isIn

/-- Only the slot beside the subtree matters. -/
theorem Place.frame {nodes nodes' : List α} (place : Place load nil parent nodes down)
    (subset : nodes' ⊆ nodes)
    (same : ∀ slot, slot ≠ down → ¬ slot.In nodes → load' slot = load slot) :
    Place load' nil parent nodes' down := by
  cases down with
  | root => exact place
  | child side p =>
    obtain ⟨isParent, real, notIn, beside⟩ := place
    have kept : load' (.child side.other p) = load (.child side.other p) :=
      same _ (fun equal => side.other_ne (Slot.child.inj equal).1) notIn
    exact ⟨isParent, real, fun isIn => notIn (subset isIn), fun isIn => beside (subset (kept ▸ isIn))⟩
  | parent p => exact place.elim

section Join

theorem mem_join : x ∈ inorder (join side p near far) ↔ x = p ∨ x ∈ inorder near ∨ x ∈ inorder far := by
  cases side <;> simp only [join, mem_inorder_node] <;> tauto

theorem root_mem : p ∈ inorder (join side p near far) := mem_join.mpr (Or.inl rfl)

theorem upper_mem : y ∈ inorder (join side x a (join side y b d)) :=
  mem_join.mpr (Or.inr (Or.inr root_mem))

theorem between_mem (isIn : p ∈ inorder b) : p ∈ inorder (join side x a (join side y b d)) :=
  mem_join.mpr (Or.inr (Or.inr (mem_join.mpr (Or.inr (Or.inl isIn)))))

theorem in_join {s : Side} : slot.In (inorder (join s p near far)) ↔
    slot.In [p] ∨ slot.In (inorder near) ∨ slot.In (inorder far) := by
  cases slot <;> simp only [Slot.In, mem_join, List.mem_singleton, or_self]

theorem nodup_join {s : Side} : (inorder (join s p near far)).Nodup ↔
    (p ∉ inorder near ∧ p ∉ inorder far) ∧ ((inorder near).Nodup ∧ (inorder far).Nodup) ∧
      (inorder near).Disjoint (inorder far) := by
  have symm : (inorder far).Disjoint (inorder near) ↔ (inorder near).Disjoint (inorder far) :=
    List.disjoint_comm
  cases s <;> simp only [join, inorder, List.nodup_append', List.nodup_cons,
    List.disjoint_cons_right] <;> tauto

theorem inorder_join_congr (equal : inorder near' = inorder near) :
    inorder (join side p near' far) = inorder (join side p near far) := by
  cases side <;> simp only [join, inorder, equal]

/-- A rotation keeps the order. -/
theorem inorder_rotate (side : Side) (x y : α) (a b d : BinaryTree α) :
    inorder (join side y (join side x a b) d) = inorder (join side x a (join side y b d)) := by
  cases side <;> simp [join, inorder]

/-- A tree after a rotation, seen from the other side. -/
theorem join_join_other : join side.other y d (join side.other x b a) =
    join side y (join side x a b) d := by
  cases side <;> rfl

theorem linkedBelow_join : LinkedBelow load nil parent down (join side p near far) ↔
    load down = p ∧ p ≠ nil ∧ load (.parent p) = parent ∧
      LinkedBelow load nil p (.child side p) near ∧ LinkedBelow load nil p (.child side.other p) far := by
  cases side with
  | left => exact Iff.rfl
  | right => simp only [join, LinkedBelow, Side.other,
      and_comm (a := LinkedBelow load nil p (.child .left p) far)]

theorem exists_join (side : Side) (linked : LinkedBelow load nil parent down t) (real : load down ≠ nil) :
    ∃ near far, t = join side (load down) near far := by
  cases t with
  | nil => exact absurd linked real
  | node p left right =>
    obtain rfl : load down = p := linked.1
    cases side with
    | left => exact ⟨left, right, rfl⟩
    | right => exact ⟨right, left, rfl⟩

end Join

section Frame

theorem LinkedBelow.ne_nil (linked : LinkedBelow load nil parent down t) (member : x ∈ inorder t) :
    x ≠ nil := by
  induction t generalizing parent down with
  | nil => exact nomatch member
  | node p left right ihl ihr =>
    obtain ⟨_, real, _, lower, upper⟩ := linked
    rcases mem_inorder_node.mp member with inLeft | rfl | inRight
    · exact ihl lower inLeft
    · exact real
    · exact ihr upper inRight

/-- A slot points to a node of its subtree, or to `nil`. -/
theorem LinkedBelow.load_mem (linked : LinkedBelow load nil parent down t) (real : load down ≠ nil) :
    load down ∈ inorder t := by
  obtain ⟨near, far, rfl⟩ := exists_join .left linked real
  exact root_mem

/-- Only the pointers of the subtree matter. -/
theorem LinkedBelow.frame (linked : LinkedBelow load nil parent down t) (here : load' down = load down)
    (same : ∀ slot, slot.In (inorder t) → load' slot = load slot) :
    LinkedBelow load' nil parent down t := by
  induction t generalizing parent down with
  | nil => exact here.trans linked
  | node p left right ihl ihr =>
    obtain ⟨top, real, above, lower, upper⟩ := linked
    have own : ∀ slot : Slot α, slot.In [p] → load' slot = load slot := fun slot isOwn =>
      same slot ((in_join (s := .left)).mpr (Or.inl isOwn))
    have inLeft : ∀ slot : Slot α, slot.In (inorder left) → load' slot = load slot := fun slot isIn =>
      same slot ((in_join (s := .left)).mpr (Or.inr (Or.inl isIn)))
    have inRight : ∀ slot : Slot α, slot.In (inorder right) → load' slot = load slot := fun slot isIn =>
      same slot ((in_join (s := .left)).mpr (Or.inr (Or.inr isIn)))
    have self : p ∈ [p] := List.mem_singleton.mpr rfl
    exact ⟨here.trans top, real, (own (.parent p) self).trans above,
      ihl lower (own (.child .left p) self) inLeft, ihr upper (own (.child .right p) self) inRight⟩

/-- A subtree moves below another parent. -/
theorem LinkedBelow.move (linked : LinkedBelow load nil parent down t) (nodup : (inorder t).Nodup)
    (here : load' down' = load down) (root : load down ≠ nil → load' (.parent (load down)) = parent')
    (same : ∀ slot, slot.In (inorder t) → slot ≠ .parent (load down) → load' slot = load slot) :
    LinkedBelow load' nil parent' down' t := by
  cases t with
  | nil => exact here.trans linked
  | node p left right =>
    obtain ⟨top, real, _, lower, upper⟩ := linked
    obtain ⟨⟨notLeft, notRight⟩, _⟩ := (nodup_join (s := .left)).mp nodup
    rw [top] at here root same
    have inside : ∀ slot : Slot α, slot.In (inorder (.node p left right)) → slot ≠ .parent p →
      load' slot = load slot := same
    have own : ∀ side, load' (.child side p) = load (.child side p) := fun side =>
      inside _ (mem_inorder_node.mpr (Or.inr (Or.inl rfl))) nofun
    have inLeft : ∀ slot : Slot α, slot.In (inorder left) → load' slot = load slot := by
      intro slot isIn
      apply inside slot ((in_join (s := .left)).mpr (Or.inr (Or.inl isIn)))
      rintro rfl
      exact notLeft isIn
    have inRight : ∀ slot : Slot α, slot.In (inorder right) → load' slot = load slot := by
      intro slot isIn
      apply inside slot ((in_join (s := .left)).mpr (Or.inr (Or.inr isIn)))
      rintro rfl
      exact notRight isIn
    exact ⟨here, real, root real, lower.frame (own .left) inLeft, upper.frame (own .right) inRight⟩

end Frame

section Focus

variable {up : α} {above : Slot α} {sub : BinaryTree α}

theorem Linked.hangs (linked : Linked load nil t) : Hangs load nil nil .root t :=
  ⟨linked.below, linked.nodup, rfl⟩

/-- The slot of a subtree is none of its own fields. -/
theorem Hangs.not_in (hangs : Hangs load nil parent down t) : ¬ down.In (inorder t) := by
  have place := hangs.place
  cases down with
  | root => exact id
  | child side p => exact place.2.2.1
  | parent p => exact place.elim

theorem Hangs.child {s : Side} (hangs : Hangs load nil parent down (join s p near far)) :
    Hangs load nil p (.child s p) near := by
  obtain ⟨⟨notNear, _⟩, ⟨nodup, _⟩, apart⟩ := nodup_join.mp hangs.nodup
  obtain ⟨_, real, _, lower, other⟩ := linkedBelow_join.mp hangs.below
  constructor
  · exact lower
  · exact nodup
  · refine ⟨rfl, real, notNear, fun inNear => ?_⟩
    exact apart inNear (other.load_mem (lower.ne_nil inNear))

/-- The pointers of a child are pointers of the tree. -/
theorem Owned.of_child (owned : Owned (.child side p) near slot) :
    Owned down (join side p near far) slot := by
  rcases owned with rfl | isIn
  · exact Or.inr (in_join.mpr (Or.inl (List.mem_singleton.mpr rfl)))
  · exact Or.inr (in_join.mpr (Or.inr (Or.inl isIn)))

/-- What happens within a child leaves a tree with another child. -/
theorem Hangs.replace_child (hangs : Hangs load nil parent down (join side p near far))
    (same : ∀ slot, ¬ Owned (.child side p) near slot → load' slot = load slot)
    (linked : LinkedBelow load' nil p (.child side p) near') :
    LinkedBelow load' nil parent down (join side p near' far) := by
  obtain ⟨⟨notNear, notFar⟩, _, apart⟩ := nodup_join.mp hangs.nodup
  obtain ⟨top, real, isParent, _, other⟩ := linkedBelow_join.mp hangs.below
  have here : load' down = load down := by
    apply same
    rintro (rfl | isIn)
    · exact hangs.not_in root_mem
    · exact hangs.not_in (in_join.mpr (Or.inr (Or.inl isIn)))
  have isParent' : load' (.parent p) = load (.parent p) := by
    apply same
    rintro (equal | isIn)
    · exact nomatch equal
    · exact notNear isIn
  have beside : load' (.child side.other p) = load (.child side.other p) := by
    apply same
    rintro (equal | isIn)
    · exact side.other_ne (Slot.child.inj equal).1
    · exact notNear isIn
  have inFar : ∀ slot, slot.In (inorder far) → load' slot = load slot := by
    intro slot isFar
    apply same
    rintro (rfl | isNear)
    · exact notFar isFar
    · cases slot with
      | root => exact isFar
      | child s q => exact apart isNear isFar
      | parent q => exact apart isNear isFar
  exact linkedBelow_join.mpr ⟨here.trans top, real, isParent'.trans isParent, linked,
    other.frame beside inFar⟩

/-- A subtree within a tree: what happens to it happens to the tree. -/
structure Focus (load : Slot α → α) (nil parent : α) (down : Slot α) (t : BinaryTree α) (up : α)
    (above : Slot α) (sub : BinaryTree α) : Prop where
  hangs : Hangs load nil up above sub
  within : ∀ slot, Owned above sub slot → Owned down t slot
  replace : ∀ (load' : Slot α → α) (sub' : BinaryTree α), (∀ slot, ¬ Owned above sub slot →
    load' slot = load slot) →
    LinkedBelow load' nil up above sub' → inorder sub' = inorder sub →
      ∃ t', LinkedBelow load' nil parent down t' ∧ inorder t' = inorder t

theorem Focus.refl (hangs : Hangs load nil parent down t) :
    Focus load nil parent down t parent down t where
  hangs := hangs
  within _ owned := owned
  replace _ sub' _ linked order := ⟨sub', linked, order⟩

theorem Focus.of_child {s : Side} (hangs : Hangs load nil parent down (join s p near far))
    (focus : Focus load nil p (.child s p) near up above sub) :
    Focus load nil parent down (join s p near far) up above sub where
  hangs := focus.hangs
  within slot owned := (focus.within slot owned).of_child
  replace load' sub' same linked order := by
    obtain ⟨near', linked', order'⟩ := focus.replace load' sub' same linked order
    have outside : ∀ slot, ¬ Owned (.child s p) near slot → load' slot = load slot := fun slot notOwned =>
      same slot fun owned => notOwned (focus.within slot owned)
    exact ⟨join s p near' far, hangs.replace_child outside linked', inorder_join_congr order'⟩

/-- Every node of a tree is the root of a subtree. -/
theorem Hangs.focus (hangs : Hangs load nil parent down t) (member : x ∈ inorder t) :
    ∃ up above sub, Focus load nil parent down t up above sub ∧ load above = x := by
  induction t generalizing parent down with
  | nil => exact nomatch member
  | node p left right ihl ihr =>
    rcases mem_inorder_node.mp member with inLeft | rfl | inRight
    · have lower : Hangs load nil p (.child .left p) left := Hangs.child (s := .left) hangs
      obtain ⟨up, above, sub, focus, root⟩ := ihl lower inLeft
      exact ⟨up, above, sub, .of_child (s := .left) hangs focus, root⟩
    · exact ⟨parent, down, .node x left right, .refl hangs, hangs.below.1⟩
    · have upper : Hangs load nil p (.child .right p) right := Hangs.child (s := .right) hangs
      obtain ⟨up, above, sub, focus, root⟩ := ihr upper inRight
      exact ⟨up, above, sub, .of_child (s := .right) hangs focus, root⟩

/-- A node with a child on the other side, and the tree below it. -/
theorem Linked.exists_focus (linked : Linked load nil t) (member : x ∈ inorder t)
    (real : load (.child side.other x) ≠ nil) :
    ∃ up down a b d, Focus load nil nil .root t up down
      (join side x a (join side (load (.child side.other x)) b d)) := by
  obtain ⟨up, down, sub, focus, root⟩ := linked.hangs.focus member
  have realLower : load down ≠ nil := root ▸ linked.below.ne_nil member
  obtain ⟨a, far, rfl⟩ := exists_join side focus.hangs.below realLower
  obtain ⟨_, _, _, _, inner⟩ := linkedBelow_join.mp focus.hangs.below
  rw [root] at inner focus
  obtain ⟨b, d, rfl⟩ := exists_join side inner real
  exact ⟨up, down, a, b, d, focus⟩

end Focus

section Rotation

/-- The two pointers of the edge below this slot; `nil` has no pointer back. -/
def Edge (load : Slot α → α) (nil : α) (down slot : Slot α) : Prop :=
  slot = down ∨ load down ≠ nil ∧ slot = .parent (load down)

theorem Slot.child_ne_parent {q : α} : Slot.child side p ≠ .parent q := nofun

theorem Slot.parent_ne_parent (apart : x ≠ y) : Slot.parent x ≠ .parent y :=
  fun equal => apart (Slot.parent.inj equal)

variable {between : α}

/-- What a rotation writes. -/
structure Turned (load load' : Slot α → α) (nil : α) (side : Side) (down : Slot α)
    (x y between : α) : Prop where
  top : load' down = y
  near : load' (.child side y) = x
  far : load' (.child side.other x) = between
  parentLower : load' (.parent x) = y
  parentUpper : load' (.parent y) = load (.parent x)
  parentBetween : between ≠ nil → load' (.parent between) = x
  others : ∀ slot, slot ≠ down → slot ≠ .parent x → slot ≠ .child side.other x → slot ≠ .parent y →
    slot ≠ .child side y → (between ≠ nil → slot ≠ .parent between) → load' slot = load slot

/-- Away from both nodes and from the pointers between them nothing is written. -/
theorem Turned.kept {nodes : List α} (turned : Turned load load' nil side down x y between)
    (lower : x ∉ nodes) (upper : y ∉ nodes) (outside : ¬ down.In nodes) (isIn : slot.In nodes)
    (notBetween : between ≠ nil → slot ≠ .parent between) : load' slot = load slot := by
  have notIn : ∀ other : Slot α, ¬ other.In nodes → slot ≠ other := fun other => isIn.ne
  exact turned.others slot (notIn down outside) (notIn (.parent x) lower)
    (notIn (.child side.other x) lower)
    (notIn (.parent y) upper) (notIn (.child side y) upper) notBetween

variable [DecidableEq α]

/-- The slot that points to a node: the root, or a field of its parent. -/
def above (load : Slot α → α) (nil x : α) : Slot α :=
  if load (.parent x) = nil then .root
  else if load (.child .left (load (.parent x))) = x then .child .left (load (.parent x))
  else .child .right (load (.parent x))

/-- The rotation of `x` to the side, pointer by pointer. -/
def rotate (load : Slot α → α) (nil : α) (side : Side) (x : α) : Slot α → α :=
  let y := load (.child side.other x)
  let between := load (.child side y)
  let inner := Function.update load (.child side.other x) between
  let moved := if between ≠ nil then Function.update inner (.parent between) x else inner
  let outer := Function.update (Function.update moved (.parent y) (load (.parent x))) (above load nil x) y
  Function.update (Function.update outer (.child side y) x) (.parent x) y

/-- The nodes of a rotation and the pointers between them; `between` is the root of the subtree in the middle. -/
structure Around (load : Slot α → α) (nil : α) (side : Side) (down : Slot α)
    (x y between : α) : Prop where
  above : above load nil x = down
  top : load down = x
  far : load (.child side.other x) = y
  near : load (.child side y) = between
  parentUpper : load (.parent y) = x
  parentBetween : between ≠ nil → load (.parent between) = y
  real : x ≠ nil
  realUpper : y ≠ nil
  apart : x ≠ y
  apartBetween : between ≠ x ∧ between ≠ y
  outside : ∀ side, down ≠ .child side x ∧ down ≠ .child side y
  pointsDown : ∀ p, down ≠ .parent p

/-- The lower node keeps its child on the side. -/
theorem Around.first (around : Around load nil side down x y between)
    (turned : Turned load load' nil side down x y between) : load' (.child side x) =
    load (.child side x) := by
  apply turned.others
  · exact (around.outside side).1.symm
  · exact Slot.child_ne_parent
  · exact fun equal => side.other_ne (Slot.child.inj equal).1.symm
  · exact Slot.child_ne_parent
  · exact fun equal => around.apart (Slot.child.inj equal).2
  · exact fun _ => Slot.child_ne_parent

/-- The upper node keeps its child on the other side. -/
theorem Around.last (around : Around load nil side down x y between)
    (turned : Turned load load' nil side down x y between) : load' (.child side.other y) =
    load (.child side.other y) := by
  apply turned.others
  · exact (around.outside side.other).2.symm
  · exact Slot.child_ne_parent
  · exact fun equal => around.apart (Slot.child.inj equal).2.symm
  · exact Slot.child_ne_parent
  · exact fun equal => side.other_ne (Slot.child.inj equal).1
  · exact fun _ => Slot.child_ne_parent

theorem Hangs.above_eq (hangs : Hangs load nil parent down (join side x a b)) :
    above load nil x = down := by
  obtain ⟨top, real, isParent, _⟩ := linkedBelow_join.mp hangs.below
  have place := hangs.place
  rw [above, isParent]
  cases down with
  | root => exact if_pos place
  | child s q =>
    obtain ⟨rfl, realParent, _, beside⟩ := place
    have other : load (.child s.other q) ≠ x := fun equal => beside (equal ▸ root_mem)
    rw [if_neg realParent]
    cases s with
    | left => rw [if_pos top]
    | right => rw [if_neg (show load (.child .left q) ≠ x from other)]
  | parent q => exact place.elim

theorem Hangs.around (hangs : Hangs load nil parent down (join side x a (join side y b d))) :
    Around load nil side down x y (load (.child side y)) := by
  obtain ⟨top, real, _, _, inner⟩ := linkedBelow_join.mp hangs.below
  obtain ⟨far, realUpper, parentUpper, below, _⟩ := linkedBelow_join.mp inner
  obtain ⟨⟨_, notInner⟩, ⟨_, nodup⟩, _⟩ := nodup_join.mp hangs.nodup
  obtain ⟨⟨notBetween, _⟩, _⟩ := nodup_join.mp nodup
  have fields : ∀ side', ¬ (down = .child side' x ∨ down = .child side' y) := by
    rintro side' (rfl | rfl)
    · exact hangs.not_in root_mem
    · exact hangs.not_in upper_mem
  constructor
  case above => exact hangs.above_eq
  case top => exact top
  case far => exact far
  case near => rfl
  case parentUpper => exact parentUpper
  case parentBetween =>
    intro realBetween
    obtain ⟨_, _, rfl⟩ := exists_join .left below realBetween
    exact (linkedBelow_join.mp below).2.2.1
  case real => exact real
  case realUpper => exact realUpper
  case apart =>
    rintro rfl
    exact notInner root_mem
  case apartBetween =>
    constructor
    · intro equal
      have inBetween := below.load_mem (by rwa [equal])
      rw [equal] at inBetween
      exact notInner (mem_join.mpr (Or.inr (Or.inl inBetween)))
    · intro equal
      have inBetween := below.load_mem (by rwa [equal])
      rw [equal] at inBetween
      exact notBetween inBetween
  case outside => exact fun side' => not_or.mp (fields side')
  case pointsDown =>
    rintro p rfl
    exact hangs.place

theorem Around.turned (around : Around load nil side down x y between) :
    Turned load (rotate load nil side x) nil side down x y between := by
  have fields : ∀ q, (Slot.child side.other x : Slot α) ≠ .child side q := fun q equal =>
    side.other_ne (Slot.child.inj equal).1
  simp only [rotate, around.above, around.far, around.near]
  constructor
  case top =>
    rw [Function.update_of_ne (around.pointsDown x), Function.update_of_ne (around.outside side).2,
      Function.update_self]
  case near => rw [Function.update_of_ne Slot.child_ne_parent, Function.update_self]
  case far =>
    rw [Function.update_of_ne Slot.child_ne_parent, Function.update_of_ne (fields y),
      Function.update_of_ne (around.outside _).1.symm, Function.update_of_ne Slot.child_ne_parent]
    split_ifs
    · rw [Function.update_of_ne Slot.child_ne_parent, Function.update_self]
    · rw [Function.update_self]
  case parentLower => rw [Function.update_self]
  case parentUpper =>
    rw [Function.update_of_ne (Slot.parent_ne_parent around.apart.symm),
      Function.update_of_ne Slot.child_ne_parent.symm,
      Function.update_of_ne (around.pointsDown y).symm, Function.update_self]
  case parentBetween =>
    intro realBetween
    rw [Function.update_of_ne (Slot.parent_ne_parent around.apartBetween.1),
      Function.update_of_ne Slot.child_ne_parent.symm,
      Function.update_of_ne (around.pointsDown _).symm,
      Function.update_of_ne (Slot.parent_ne_parent around.apartBetween.2), if_pos realBetween,
      Function.update_self]
  case others =>
    intro slot notDown notLower notFar notUpper notNear notBetween
    rw [Function.update_of_ne notLower, Function.update_of_ne notNear, Function.update_of_ne notDown,
      Function.update_of_ne notUpper]
    split_ifs with realBetween
    · rw [Function.update_of_ne (notBetween realBetween), Function.update_of_ne notFar]
    · rw [Function.update_of_ne notFar]

/-- The writes of a rotation are within the subtree. -/
theorem Hangs.rotate_outside (hangs : Hangs load nil parent down (join side x a (join side y b d)))
    (outside : ¬ Owned down (join side x a (join side y b d)) slot) : rotate load nil side x slot =
    load slot := by
  obtain ⟨_, _, _, _, inner⟩ := linkedBelow_join.mp hangs.below
  obtain ⟨_, _, _, below, _⟩ := linkedBelow_join.mp inner
  obtain ⟨notDown, notIn⟩ := not_or.mp outside
  have notField : ∀ other : Slot α, other.In (inorder (join side x a (join side y b d))) → slot ≠ other :=
    fun other isIn => (isIn.ne notIn).symm
  apply hangs.around.turned.others slot notDown (notField (.parent x) root_mem)
    (notField (.child side.other x) root_mem)
    (notField (.parent y) upper_mem) (notField (.child side y) upper_mem)
  exact fun realBetween => notField (.parent _) (between_mem (below.load_mem realBetween))

/-- The pointers lead to the rotated tree. -/
theorem Hangs.rotate_below (hangs : Hangs load nil parent down (join side x a (join side y b d))) :
    LinkedBelow (rotate load nil side x) nil parent down (join side y (join side x a b) d) := by
  have turned := hangs.around.turned
  obtain ⟨_, real, isParent, first, inner⟩ := linkedBelow_join.mp hangs.below
  obtain ⟨_, realUpper, _, below, last⟩ := linkedBelow_join.mp inner
  obtain ⟨⟨notFirst, notInner⟩, ⟨_, nodup⟩, apart⟩ := nodup_join.mp hangs.nodup
  obtain ⟨⟨notBetween, notLast⟩, ⟨nodupBetween, _⟩, apartInner⟩ := nodup_join.mp nodup
  have xBetween : x ∉ inorder b := fun isIn => notInner (mem_join.mpr (Or.inr (Or.inl isIn)))
  have xLast : x ∉ inorder d := fun isIn => notInner (mem_join.mpr (Or.inr (Or.inr isIn)))
  have yFirst : y ∉ inorder a := fun isIn => apart isIn root_mem
  have outside : ∀ slot, slot.In (inorder a) ∨ slot.In (inorder b) ∨ slot.In (inorder d) →
    slot ≠ down := by
    rintro slot isIn rfl
    apply hangs.not_in
    simp only [in_join]
    tauto
  have inFirst : ∀ slot : Slot α, slot.In (inorder a) → rotate load nil side x slot = load slot := by
    intro slot isIn
    apply turned.kept notFirst yFirst (fun isDown => outside down (Or.inl isDown) rfl) isIn
    rintro realBetween rfl
    exact apart isIn (mem_join.mpr (Or.inr (Or.inl (below.load_mem realBetween))))
  have inLast : ∀ slot : Slot α, slot.In (inorder d) → rotate load nil side x slot = load slot := by
    intro slot isIn
    apply turned.kept xLast notLast (fun isDown => outside down (Or.inr (Or.inr isDown)) rfl) isIn
    rintro realBetween rfl
    exact apartInner (below.load_mem realBetween) isIn
  have inBetween : ∀ slot : Slot α, slot.In (inorder b) → slot ≠ .parent (load (.child side y)) →
      rotate load nil side x slot = load slot := by
    intro slot isIn notRoot
    exact turned.kept xBetween notBetween (fun isDown => outside down (Or.inr (Or.inl isDown)) rfl)
      isIn fun _ => notRoot
  have lower : LinkedBelow (rotate load nil side x) nil y (.child side y) (join side x a b) :=
    linkedBelow_join.mpr ⟨turned.near, real, turned.parentLower,
      first.frame (hangs.around.first turned) inFirst,
      below.move nodupBetween turned.far turned.parentBetween inBetween⟩
  exact linkedBelow_join.mpr ⟨turned.top, realUpper, turned.parentUpper.trans isParent, lower,
    last.frame (hangs.around.last turned) inLast⟩

theorem Hangs.rotate (hangs : Hangs load nil parent down (join side x a (join side y b d))) :
    Hangs (rotate load nil side x) nil parent down (join side y (join side x a b) d) := by
  constructor
  case below => exact hangs.rotate_below
  case nodup =>
    rw [inorder_rotate]
    exact hangs.nodup
  case place =>
    rw [inorder_rotate]
    exact hangs.place.frame (List.Subset.refl _) fun slot notDown notIn => hangs.rotate_outside
      (not_or.mpr ⟨notDown, notIn⟩)

/-- The rotation back writes the same pointers, each with what it was before. -/
theorem Around.restored {load'' : Slot α → α} (around : Around load nil side down x y between)
    (turned : Turned load load' nil side down x y between)
    (back : Turned load' load'' nil side.other down y x between) :
    load'' = load := by
  have far := back.far
  have others := back.others
  rw [Side.other_other] at far others
  funext slot
  by_cases isDown : slot = down
  · rw [isDown, back.top, around.top]
  by_cases isLower : slot = .parent x
  · rw [isLower, back.parentUpper, turned.parentUpper]
  by_cases isFar : slot = .child side.other x
  · rw [isFar, back.near, around.far]
  by_cases isUpper : slot = .parent y
  · rw [isUpper, back.parentLower, around.parentUpper]
  by_cases isNear : slot = .child side y
  · rw [isNear, far, around.near]
  by_cases isBetween : between ≠ nil ∧ slot = .parent between
  · rw [isBetween.2, back.parentBetween isBetween.1, around.parentBetween isBetween.1]
  have notBetween : between ≠ nil → slot ≠ .parent between := fun real equal => isBetween ⟨real, equal⟩
  rw [others slot isDown isUpper isNear isLower isFar notBetween,
    turned.others slot isDown isLower isFar isUpper isNear notBetween]

theorem Hangs.rotate_rotate (hangs : Hangs load nil parent down (join side x a (join side y b d))) :
    LinkedTree.rotate (LinkedTree.rotate load nil side x) nil side.other y = load := by
  have turned := hangs.around.turned
  have flipped := hangs.rotate
  rw [← join_join_other] at flipped
  have back := flipped.around.turned
  rw [turned.far] at back
  exact hangs.around.restored turned back

/-- Only the edge above the lower node, the edge between the nodes and the edge below them change. -/
theorem Hangs.rotate_edges (hangs : Hangs load nil parent down (join side x a (join side y b d)))
    (outer : ¬ Edge load nil (above load nil x) slot)
    (middle : ¬ Edge load nil (.child side.other x) slot)
    (inner : ¬ Edge load nil (.child side y) slot) : LinkedTree.rotate load nil side x slot =
    load slot := by
  have around := hangs.around
  rw [around.above, Edge, around.top, not_or] at outer
  rw [Edge, around.far, not_or] at middle
  rw [Edge, not_or] at inner
  apply around.turned.others slot
  · exact outer.1
  · exact fun equal => outer.2 ⟨around.real, equal⟩
  · exact middle.1
  · exact fun equal => middle.2 ⟨around.realUpper, equal⟩
  · exact inner.1
  · exact fun real equal => inner.2 ⟨real, equal⟩

theorem Hangs.rotate_nil (hangs : Hangs load nil parent down (join side x a (join side y b d)))
    (isIn : slot.In [nil]) :
    LinkedTree.rotate load nil side x slot = load slot := by
  have around := hangs.around
  have place := hangs.place
  have lower : x ∉ [nil] := fun isNil => around.real (List.mem_singleton.mp isNil)
  have upper : y ∉ [nil] := fun isNil => around.realUpper (List.mem_singleton.mp isNil)
  have outside : ¬ down.In [nil] := by
    cases down with
    | root => exact id
    | child s q => exact fun isNil => place.2.1 (List.mem_singleton.mp isNil)
    | parent q => exact place.elim
  apply around.turned.kept lower upper outside isIn
  rintro real rfl
  exact real (List.mem_singleton.mp isIn)

theorem Linked.rotate (linked : Linked load nil t) (member : x ∈ inorder t)
    (real : load (.child side.other x) ≠ nil) :
    ∃ t', Linked (LinkedTree.rotate load nil side x) nil t' ∧ inorder t' = inorder t := by
  obtain ⟨up, down, a, b, d, focus⟩ := linked.exists_focus member real
  obtain ⟨t', below, order⟩ := focus.replace _ _ (fun _ => focus.hangs.rotate_outside)
    focus.hangs.rotate_below (inorder_rotate ..)
  exact ⟨t', ⟨below, order ▸ linked.nodup⟩, order⟩

end Rotation

end LinuxZero.LinkedTree
