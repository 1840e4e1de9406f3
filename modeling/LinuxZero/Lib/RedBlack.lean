import Mathlib.Data.List.Basic
import Mathlib.Tactic.Ring

/-! # Red-black trees with a hole

A tree is described from a side, so that what is said about a left child holds of a right child too. A path
leads from a hole up to the root; it knows the siblings that hang off it, and the tree around the hole is
balanced when the hole takes a tree of one black height. An insertion has a red tree in the hole that may
stand below a red parent, a deletion a tree that is one black node short; each rebalancing step either
mends that or moves the hole up.
-/

namespace LinuxZero

inductive Side
  | left
  | right
deriving DecidableEq, Repr

def Side.other : Side → Side
  | .left => .right
  | .right => .left

@[simp] theorem Side.other_other (side : Side) : side.other.other = side := by cases side <;> rfl

theorem Side.other_ne (side : Side) : side.other ≠ side := by cases side <;> decide

theorem Side.eq_other_of_ne {side side' : Side} (ne : side' ≠ side) : side' = side.other := by
  cases side <;> cases side' <;> first | rfl | exact absurd rfl ne

namespace RedBlack

inductive Color
  | red
  | black
deriving DecidableEq, Repr

theorem Color.eq_black_iff (color : Color) : color = .black ↔ color ≠ .red := by cases color <;> decide

inductive ColorTree (α : Type*)
  | leaf
  | node (color : Color) (left : ColorTree α) (item : α) (right : ColorTree α)

variable {α : Type*}

namespace ColorTree

/-- The tree whose child on the side is `near`. -/
def join (side : Side) (color : Color) (near : ColorTree α) (item : α) (far : ColorTree α) :
    ColorTree α :=
  match side with
  | .left => node color near item far
  | .right => node color far item near

def color : ColorTree α → Color
  | leaf => .black
  | node color _ _ _ => color

def paint (color : Color) : ColorTree α → ColorTree α
  | leaf => leaf
  | node _ left item right => node color left item right

def inorder : ColorTree α → List α
  | leaf => []
  | node _ left item right => left.inorder ++ item :: right.inorder

def height : ColorTree α → ℕ
  | leaf => 0
  | node _ left _ right => max left.height right.height + 1

/-- No red node has a red child, and every path down has the same number of black nodes. -/
def Balanced : ColorTree α → ℕ → Prop
  | leaf, n => n = 0
  | node .red left _ right, n => (left.color = .black ∧ left.Balanced n) ∧ right.color = .black ∧
      right.Balanced n
  | node .black _ _ _, 0 => False
  | node .black left _ right, n + 1 => left.Balanced n ∧ right.Balanced n

variable (side : Side) (near far : ColorTree α) (item : α)

theorem join_other (c : Color) : join side.other c far item near =
    join side c near item far := by cases side <;> rfl

@[simp] theorem color_join (c : Color) : (join side c near item far).color = c := by cases side <;> rfl

@[simp] theorem paint_join (c c' : Color) : (join side c near item far).paint c' =
    join side c' near item far := by
  cases side <;> rfl

theorem join_ne_leaf {side : Side} {c : Color} {near far : ColorTree α} {item : α} :
    join side c near item far ≠ leaf := by
  cases side <;> exact nofun

theorem exists_join {t : ColorTree α} (nonempty : t ≠ leaf) : ∃ near item far, t =
    join side t.color near item far := by
  cases t with
  | leaf => exact absurd rfl nonempty
  | node c left item right =>
    cases side with
    | left => exact ⟨left, item, right, rfl⟩
    | right => exact ⟨right, item, left, rfl⟩

theorem nonempty_of_red {t : ColorTree α} (red : t.color = .red) : t ≠ leaf := by
  rintro rfl
  exact nomatch red

theorem paint_color (t : ColorTree α) : t.paint t.color = t := by cases t <;> rfl

@[simp] theorem inorder_paint (c : Color) (t : ColorTree α) : (t.paint c).inorder =
    t.inorder := by cases t <;> rfl

theorem inorder_eq_nil {t : ColorTree α} : t.inorder = [] ↔ t = leaf := by
  cases t with
  | leaf => exact iff_of_true rfl rfl
  | node c left item right =>
    exact iff_of_false (List.append_ne_nil_of_right_ne_nil _ (List.cons_ne_nil _ _)) nofun

/-- The colour of a node does not matter for the order. -/
theorem inorder_join_congr {near' far' : ColorTree α} (c c' : Color)
    (equal : near'.inorder = near.inorder) (equal' : far'.inorder = far.inorder) :
    (join side c' near' item far').inorder = (join side c near item far).inorder := by
  cases side <;> simp [join, inorder, equal, equal']

/-- A rotation keeps the order. -/
theorem inorder_rotate (a b d : ColorTree α) (x y : α) (c₁ c₂ c₃ c₄ : Color) :
    (join side c₁ (join side c₂ a x b) y d).inorder =
    (join side c₃ a x (join side c₄ b y d)).inorder := by
  cases side <;> simp [join, inorder]

theorem mem_inorder_join {c : Color} {i : α} :
    i ∈ (join side c near item far).inorder ↔ i = item ∨ i ∈ near.inorder ∨ i ∈ far.inorder := by
  cases side <;> simp only [join, inorder, List.mem_append, List.mem_cons] <;> tauto

variable {side near far item}

@[simp] theorem balanced_leaf {n : ℕ} : (leaf : ColorTree α).Balanced n ↔ n = 0 := Iff.rfl

@[simp] theorem balanced_red {n : ℕ} : (join side .red near item far).Balanced n ↔
    (near.color = .black ∧ near.Balanced n) ∧ far.color = .black ∧ far.Balanced n := by
  cases side with
  | left => exact Iff.rfl
  | right => exact And.comm

@[simp] theorem balanced_black {n : ℕ} : (join side .black near item far).Balanced (n + 1) ↔
    near.Balanced n ∧ far.Balanced n := by
  cases side with
  | left => exact Iff.rfl
  | right => exact And.comm

theorem Balanced.black_cases {s : Side} {n : ℕ} (balanced : (join s .black near item far).Balanced n) :
    ∃ m, n = m + 1 ∧ near.Balanced m ∧ far.Balanced m := by
  cases n with
  | zero => cases s <;> exact balanced.elim
  | succ m => exact ⟨m, rfl, balanced_black.mp balanced⟩

theorem Balanced.nonempty {t : ColorTree α} {n : ℕ} (balanced : t.Balanced (n + 1)) : t ≠ leaf := by
  rintro rfl
  exact absurd balanced (Nat.succ_ne_zero n)

/-- A red node that is painted black makes up for a black one. -/
theorem Balanced.paint_black {t : ColorTree α} {n : ℕ} (balanced : t.Balanced n) (red : t.color = .red) :
    (t.paint .black).Balanced (n + 1) := by
  cases t with
  | leaf => exact nomatch red
  | node c left item right =>
    obtain rfl : c = .red := red
    exact ⟨balanced.1.2, balanced.2.2⟩

section Height

theorem Balanced.pow_le {t : ColorTree α} {n : ℕ} (balanced : t.Balanced n) :
    2 ^ n ≤ t.inorder.length + 1 := by
  induction t generalizing n with
  | leaf =>
    obtain rfl : n = 0 := balanced
    exact le_rfl
  | node c left item right ihl ihr =>
    rw [inorder, List.length_append, List.length_cons]
    cases c with
    | red =>
      have upper := ihl balanced.1.2
      omega
    | black =>
      obtain ⟨m, rfl, first, second⟩ := Balanced.black_cases (s := .left) balanced
      have lower := ihl first
      have upper := ihr second
      rw [Nat.pow_succ]
      omega

/-- Every other node of a path down may be red. -/
theorem Balanced.height_le {t : ColorTree α} {n : ℕ} (balanced : t.Balanced n) :
    t.height ≤ 2 * n + (if t.color = .red then 1 else 0) := by
  induction t generalizing n with
  | leaf => exact Nat.zero_le _
  | node c left item right ihl ihr =>
    rw [height]
    cases c with
    | red =>
      obtain ⟨⟨black, first⟩, black', second⟩ := balanced
      have lower := ihl first
      have upper := ihr second
      rw [if_neg (by rw [black]; decide)] at lower
      rw [if_neg (by rw [black']; decide)] at upper
      have red : (node Color.red left item right).color = .red := rfl
      rw [if_pos red]
      omega
    | black =>
      obtain ⟨m, rfl, first, second⟩ := Balanced.black_cases (s := .left) balanced
      have lower := ihl first
      have upper := ihr second
      split_ifs at lower upper ⊢ <;> omega

theorem Balanced.height_pow_le {t : ColorTree α} {n : ℕ} (balanced : t.Balanced n)
    (black : t.color = .black) :
    2 ^ t.height ≤ (t.inorder.length + 1) ^ 2 := by
  have bound := balanced.height_le
  rw [if_neg (by rw [black]; decide), Nat.add_zero] at bound
  calc 2 ^ t.height ≤ 2 ^ (2 * n) := Nat.pow_le_pow_right (by decide) bound
    _ = (2 ^ n) ^ 2 := by rw [Nat.mul_comm, Nat.pow_mul]
    _ ≤ (t.inorder.length + 1) ^ 2 := Nat.pow_le_pow_left balanced.pow_le 2

end Height

end ColorTree

/-- A node above the hole: the side that the hole is on, and the subtree on the other side. -/
structure Frame (α : Type*) where
  side : Side
  color : Color
  item : α
  sibling : ColorTree α

def Frame.plug (frame : Frame α) (t : ColorTree α) : ColorTree α :=
  ColorTree.join frame.side frame.color t frame.item frame.sibling

/-- The nodes above the hole, the nearest first. -/
abbrev TreePath (α : Type*) := List (Frame α)

namespace TreePath

open ColorTree

def fill : TreePath α → ColorTree α → ColorTree α
  | [], t => t
  | frame :: path, t => fill path (frame.plug t)

/-- What comes before the hole in the order. -/
def before : TreePath α → List α
  | [] => []
  | frame :: path =>
    match frame.side with
    | .left => before path
    | .right => before path ++ (frame.sibling.inorder ++ [frame.item])

def after : TreePath α → List α
  | [] => []
  | frame :: path =>
    match frame.side with
    | .left => frame.item :: frame.sibling.inorder ++ after path
    | .right => after path

/-- The colour above the hole; there is black above the root. -/
def color : TreePath α → Color
  | [] => .black
  | frame :: _ => frame.color

/-- A tree of black height `n` is missing in the hole. -/
def Balanced : TreePath α → ℕ → Prop
  | [], _ => True
  | ⟨_, .red, _, sibling⟩ :: path, n =>
    (sibling.color = .black ∧ sibling.Balanced n) ∧ path ≠ [] ∧ color path = .black ∧ Balanced path n
  | ⟨_, .black, _, sibling⟩ :: path, n => sibling.Balanced n ∧ Balanced path (n + 1)

theorem fill_append (low path : TreePath α) (t : ColorTree α) : TreePath.fill (low ++ path) t =
    path.fill (low.fill t) := by
  induction low generalizing t with
  | nil => rfl
  | cons frame low ih => exact ih _

theorem before_append (low path : TreePath α) : TreePath.before (low ++ path) =
    path.before ++ low.before := by
  induction low with
  | nil => exact (List.append_nil _).symm
  | cons frame low ih =>
    obtain ⟨side, c, item, sibling⟩ := frame
    cases side <;> simp only [List.cons_append, before, ih, List.append_assoc]

theorem after_append (low path : TreePath α) : TreePath.after (low ++ path) =
    low.after ++ path.after := by
  induction low with
  | nil => rfl
  | cons frame low ih =>
    obtain ⟨side, c, item, sibling⟩ := frame
    cases side <;> simp only [List.cons_append, after, ih, List.append_assoc]

/-- An item of the tree is the root of a subtree. -/
theorem exists_fill {t : ColorTree α} {item : α} (member : item ∈ t.inorder) :
    ∃ (path : TreePath α) (c : Color) (left right : ColorTree α), t =
    path.fill (.node c left item right) := by
  induction t with
  | leaf => exact absurd member List.not_mem_nil
  | node c left i right ihl ihr =>
    rcases List.mem_append.mp member with inLeft | inRight
    · obtain ⟨path, c', l, r, rfl⟩ := ihl inLeft
      exact ⟨path ++ [⟨.left, c, i, right⟩], c', l, r, by rw [fill_append]; rfl⟩
    · rcases List.mem_cons.mp inRight with rfl | inRight
      · exact ⟨[], c, left, right, rfl⟩
      · obtain ⟨path, c', l, r, rfl⟩ := ihr inRight
        exact ⟨path ++ [⟨.right, c, i, left⟩], c', l, r, by rw [fill_append]; rfl⟩

theorem inorder_fill (path : TreePath α) (t : ColorTree α) : (path.fill t).inorder =
    path.before ++ t.inorder ++ path.after := by
  induction path generalizing t with
  | nil => simp [fill, before, after]
  | cons frame path ih =>
    rw [fill, ih]
    obtain ⟨side, c, item, sibling⟩ := frame
    cases side <;> simp [Frame.plug, join, inorder, before, after]

theorem inorder_fill_congr {t t' : ColorTree α} (path : TreePath α) (same : t'.inorder = t.inorder) :
    (path.fill t').inorder = (path.fill t).inorder := by
  rw [inorder_fill, inorder_fill, same]

theorem fill_nonempty (path : TreePath α) {t : ColorTree α} (nonempty : t ≠ leaf) :
    path.fill t ≠ leaf := by
  induction path generalizing t with
  | nil => exact nonempty
  | cons frame path ih => exact ih join_ne_leaf

theorem fill_eq_leaf {path : TreePath α} {t : ColorTree α} (empty : path.fill t = leaf) :
    path = [] ∧ t = leaf := by
  cases path with
  | nil => exact ⟨rfl, empty⟩
  | cons frame path => exact absurd empty (fill_nonempty path join_ne_leaf)

/-- A node with one child at most stands next to the child in the order. -/
theorem exists_split (path : TreePath α) (side : Side) (c : Color) (child : ColorTree α) (item : α) :
    ∃ low high, (path.fill (join side c child item leaf)).inorder = low ++ item :: high ∧
      (path.fill child).inorder = low ++ high := by
  simp only [inorder_fill]
  cases side with
  | left =>
    refine ⟨path.before ++ child.inorder, path.after, ?_, rfl⟩
    simp only [join, inorder, List.append_assoc, List.cons_append, List.nil_append]
  | right =>
    refine ⟨path.before, child.inorder ++ path.after, ?_, List.append_assoc ..⟩
    simp only [join, inorder, List.append_assoc, List.cons_append, List.nil_append]

/-- The tree fits into the hole. -/
structure Fits (path : TreePath α) (t : ColorTree α) (n : ℕ) : Prop where
  above : path.Balanced n
  tree : t.Balanced n
  color : path.color = .red → t.color = .black
  root : path = [] → t.color = .black

variable {path : TreePath α} {t : ColorTree α} {n : ℕ} {frame : Frame α}

theorem Fits.up (fits : Fits (frame :: path) t n) : ∃ m, Fits path (frame.plug t) m := by
  obtain ⟨side, c, item, sibling⟩ := frame
  obtain ⟨balanced, tree, color, _⟩ := fits
  cases c with
  | red =>
    obtain ⟨⟨black, sibling⟩, nonempty, above, rest⟩ := balanced
    refine ⟨n, rest, ?_, ?_, fun empty => absurd empty nonempty⟩
    · exact balanced_red.mpr ⟨⟨color rfl, tree⟩, black, sibling⟩
    · intro red
      exact nomatch above.symm.trans red
  | black =>
    obtain ⟨sibling, rest⟩ := balanced
    exact ⟨n + 1, rest, balanced_black.mpr ⟨tree, sibling⟩, fun _ => color_join ..,
      fun _ => color_join ..⟩

theorem Fits.down (frame : Frame α) (fits : Fits path (frame.plug t) n) :
    ∃ m, Fits (frame :: path) t m := by
  obtain ⟨side, c, item, sibling⟩ := frame
  obtain ⟨rest, tree, color, root⟩ := fits
  cases c with
  | red =>
    obtain ⟨⟨black, balanced⟩, black', balanced'⟩ := balanced_red.mp tree
    have nonempty : path ≠ [] := by
      intro empty
      exact nomatch (color_join ..).symm.trans (root empty)
    have above : path.color = .black := by
      rw [Color.eq_black_iff]
      intro red
      exact nomatch (color_join ..).symm.trans (color red)
    exact ⟨n, ⟨⟨black', balanced'⟩, nonempty, above, rest⟩, balanced, fun _ => black, nofun⟩
  | black =>
    obtain ⟨m, rfl, balanced, balanced'⟩ := tree.black_cases
    exact ⟨m, ⟨balanced', rest⟩, balanced, nofun, nofun⟩

theorem Fits.fill (fits : Fits path t n) : ∃ m, Fits [] (path.fill t) m := by
  induction path generalizing t n with
  | nil => exact ⟨n, fits⟩
  | cons frame path ih =>
    obtain ⟨m, up⟩ := fits.up
    exact ih up

theorem Fits.append {low : TreePath α} (fits : Fits path (low.fill t) n) :
    ∃ m, Fits (low ++ path) t m := by
  induction low generalizing t with
  | nil => exact ⟨n, fits⟩
  | cons frame low ih =>
    obtain ⟨m, above⟩ := ih fits
    exact above.down frame

/-- The items do not matter for the balance. -/
theorem Balanced.setItem (low : TreePath α) {side : Side} {c : Color} {item : α}
    {sibling : ColorTree α} (item' : α)
    (balanced : Balanced (low ++ ⟨side, c, item, sibling⟩ :: path) n) :
    Balanced (low ++ ⟨side, c, item', sibling⟩ :: path) n := by
  induction low generalizing n with
  | nil => cases c <;> exact balanced
  | cons frame low ih =>
    obtain ⟨side', c', i, other⟩ := frame
    cases c' with
    | red =>
      obtain ⟨sibling_balanced, _, above, rest⟩ := balanced
      refine ⟨sibling_balanced, List.append_ne_nil_of_right_ne_nil low (List.cons_ne_nil _ _),
        ?_, ih rest⟩
      cases low <;> exact above
    | black => exact ⟨balanced.1, ih balanced.2⟩

theorem Fits.setItem (low : TreePath α) {side : Side} {c : Color} {item : α}
    {sibling : ColorTree α} (item' : α)
    (fits : Fits (low ++ ⟨side, c, item, sibling⟩ :: path) t n) :
    Fits (low ++ ⟨side, c, item', sibling⟩ :: path) t n := by
  refine ⟨fits.above.setItem low item', fits.tree, fun red => fits.color ?_, fun empty => ?_⟩
  · cases low <;> exact red
  · exact absurd empty (List.append_ne_nil_of_right_ne_nil low (List.cons_ne_nil _ _))

end TreePath

section Insertion

open ColorTree

variable {p g : Frame α} {up : TreePath α} {t : ColorTree α} {n : ℕ}

/-- A red parent of the hole is not the root. -/
theorem TreePath.Balanced.grandparent {path : TreePath α} (balanced : path.Balanced n)
    (red : path.color = .red) :
    ∃ p g up, path = p :: g :: up ∧ p.color = .red ∧ g.color = .black := by
  cases path with
  | nil => exact nomatch red
  | cons p path =>
    obtain ⟨side, c, item, sibling⟩ := p
    obtain rfl : c = .red := red
    obtain ⟨_, nonempty, above, _⟩ := balanced
    cases path with
    | nil => exact absurd rfl nonempty
    | cons g up => exact ⟨_, g, up, rfl, rfl, above⟩

theorem TreePath.Balanced.split (balanced : TreePath.Balanced (p :: g :: up) n)
    (red : p.color = .red) (black : g.color = .black) :
    (p.sibling.color = .black ∧ p.sibling.Balanced n) ∧ g.sibling.Balanced n ∧ up.Balanced (n + 1) := by
  obtain ⟨side, c, item, sibling⟩ := p
  obtain ⟨side', c', item', sibling'⟩ := g
  obtain rfl : c = .red := red
  obtain rfl : c' = .black := black
  exact ⟨balanced.1, balanced.2.2.2⟩

/-- With a red uncle the grandparent becomes red, and the hole moves up to it. -/
theorem recolor_balanced (balanced : TreePath.Balanced (p :: g :: up) n) (red : p.color = .red)
    (black : g.color = .black) (tree : t.Balanced n) (uncle : g.sibling.color = .red) :
    (join g.side .red (join p.side .black t p.item p.sibling) g.item
      (g.sibling.paint .black)).Balanced (n + 1) ∧
      up.Balanced (n + 1) := by
  obtain ⟨⟨_, sibling⟩, other, rest⟩ := balanced.split red black
  refine ⟨balanced_red.mpr ⟨⟨color_join .., balanced_black.mpr ⟨tree, sibling⟩⟩, ?_,
    other.paint_black uncle⟩, rest⟩
  obtain ⟨near, item, far, shape⟩ := exists_join g.side (t := g.sibling) (by
    intro leaf
    rw [leaf] at uncle
    exact nomatch uncle)
  rw [shape, paint_join, color_join]

/-- With a black uncle the parent takes the place of the grandparent. -/
theorem rotate_balanced (balanced : TreePath.Balanced (p :: g :: up) n) (red : p.color = .red)
    (black : g.color = .black) (uncle : g.sibling.color = .black) (item : α) {far : ColorTree α}
    (far_black : far.color = .black) (far_balanced : far.Balanced n) :
    TreePath.Balanced (⟨g.side, .black, item, join g.side .red far g.item g.sibling⟩ :: up) n := by
  obtain ⟨_, other, rest⟩ := balanced.split red black
  exact ⟨balanced_red.mpr ⟨⟨far_black, far_balanced⟩, uncle, other⟩, rest⟩

end Insertion

/-- Painting the root black mends a red root, and nothing else can be wrong below a black node. -/
theorem TreePath.paint_root {path : TreePath α} {t : ColorTree α} {n : ℕ} (above : path.Balanced n)
    (tree : t.Balanced n) (color : path.color = .black) :
    ∃ m, TreePath.Fits [] ((path.fill t).paint .black) m := by
  cases path with
  | nil =>
    have black : (t.paint .black).color = .black := by cases t <;> rfl
    cases root : t.color with
    | red => exact ⟨n + 1, trivial, tree.paint_black root, fun _ => black, fun _ => black⟩
    | black => exact ⟨n, trivial, (root ▸ t.paint_color : t.paint .black = t).symm ▸ tree,
        fun _ => black, fun _ => black⟩
  | cons frame path =>
    have fits : TreePath.Fits (frame :: path) t n :=
      ⟨above, tree, fun red => (nomatch color.symm.trans red), nofun⟩
    obtain ⟨m, whole⟩ := fits.fill
    have same : (TreePath.fill (frame :: path) t).paint .black = TreePath.fill (frame :: path) t := by
      rw [← whole.root rfl, ColorTree.paint_color]
    exact ⟨m, same.symm ▸ whole⟩

section Deletion

open ColorTree

/-- The tree in the hole is one black node short, unless its red root is painted black. -/
def Short (t : ColorTree α) (n : ℕ) : Prop :=
  (t.color = .black ∧ t.Balanced n) ∨ t.color = .red ∧ (t.paint .black).Balanced (n + 1)

variable {f : Frame α} {up path : TreePath α} {t near far : ColorTree α} {item : α} {n : ℕ}

/-- A tree that is short is mended at the root and where it is red. -/
theorem Short.fits (short : Short t n) (balanced : path.Balanced (n + 1))
    (stop : path = [] ∨ t.color = .red) :
    ∃ m, TreePath.Fits path (t.paint .black) m := by
  have black : (t.paint .black).color = .black := by cases t <;> rfl
  rcases short with ⟨color, tree⟩ | ⟨_, tree⟩
  · have root : path = [] := stop.resolve_right (by rw [color]; decide)
    have same : t.paint .black = t := color ▸ t.paint_color
    subst root
    exact ⟨n, trivial, same.symm ▸ tree, fun _ => black, fun _ => black⟩
  · exact ⟨n + 1, balanced, tree, fun _ => black, fun _ => black⟩

theorem TreePath.Fits.short (fits : TreePath.Fits [] t n) : Short t n := Or.inl ⟨fits.root rfl, fits.tree⟩

theorem TreePath.Balanced.sibling (balanced : TreePath.Balanced (f :: up) n) : f.sibling.Balanced n := by
  obtain ⟨side, c, item, sibling⟩ := f
  cases c with
  | red => exact balanced.1.2
  | black => exact balanced.1

variable {side : Side} {c : Color} {parent : α}

/-- A black node that is taken out leaves a tree that is short. -/
theorem TreePath.Fits.remove_black (fits : TreePath.Fits path (join side .black t item .leaf) n) :
    ∃ m, Short t m ∧ path.Balanced (m + 1) := by
  obtain ⟨m, rfl, balanced, _⟩ := fits.tree.black_cases
  refine ⟨m, ?_, fits.above⟩
  cases color : t.color with
  | red => exact Or.inr ⟨color, balanced.paint_black color⟩
  | black => exact Or.inl ⟨color, balanced⟩

theorem TreePath.Fits.remove_red (fits : TreePath.Fits path (join side .red t item .leaf) n) :
    TreePath.Fits path t n := by
  obtain ⟨⟨black, balanced⟩, _⟩ := balanced_red.mp fits.tree
  exact ⟨fits.above, balanced, fun _ => black, fun _ => black⟩

/-- The parent of a red sibling is black; they change places. -/
theorem red_sibling_balanced
    (balanced : TreePath.Balanced (⟨side, c, parent, join side .red near item far⟩ :: up) n) :
    c = .black ∧ near.color = .black ∧
      TreePath.Balanced (⟨side, .red, parent, near⟩ :: ⟨side, .black, item, far⟩ :: up) n := by
  cases c with
  | red => exact nomatch (color_join ..).symm.trans balanced.1.1
  | black =>
    obtain ⟨⟨near_black, near_balanced⟩, _, far_balanced⟩ := balanced_red.mp balanced.1
    exact ⟨rfl, near_black, ⟨near_black, near_balanced⟩, List.cons_ne_nil _ _, rfl,
      far_balanced, balanced.2⟩

/-- With black children the sibling becomes red, and the hole moves up. -/
theorem black_children_short
    (balanced : TreePath.Balanced (⟨side, c, parent, join side .black near item far⟩ :: up) (n + 1))
    (tree : t.Balanced n) (near_black : near.color = .black) (far_black : far.color = .black) :
    ∃ m, Short (join side c t parent (join side .red near item far)) m ∧ up.Balanced (m + 1) := by
  obtain ⟨near_balanced, far_balanced⟩ := balanced_black.mp balanced.sibling
  have red : (join side .red near item far).Balanced n :=
    balanced_red.mpr ⟨⟨near_black, near_balanced⟩, far_black, far_balanced⟩
  cases c with
  | red => exact ⟨n, Or.inr ⟨color_join ..,
      by rw [paint_join]; exact balanced_black.mpr ⟨tree, red⟩⟩, balanced.2.2.2⟩
  | black => exact ⟨n + 1, Or.inl ⟨color_join .., balanced_black.mpr ⟨tree, red⟩⟩, balanced.2⟩

/-- A red near child of the sibling takes its place. -/
theorem near_child_balanced {inner outer : ColorTree α} {child : α}
    (balanced : TreePath.Balanced
      (⟨side, c, parent, join side .black (join side .red inner child outer) item far⟩ :: up) (n + 1))
    (far_black : far.color = .black) :
    TreePath.Balanced (⟨side, c, parent,
      join side .black inner child (join side .red outer item far)⟩ :: up) (n + 1) := by
  obtain ⟨near_balanced, far_balanced⟩ := balanced_black.mp balanced.sibling
  obtain ⟨⟨_, inner_balanced⟩, outer_black, outer_balanced⟩ := balanced_red.mp near_balanced
  have replaced : (join side .black inner child (join side .red outer item far)).Balanced (n + 1) :=
    balanced_black.mpr ⟨inner_balanced, balanced_red.mpr ⟨⟨outer_black, outer_balanced⟩, far_black,
      far_balanced⟩⟩
  cases c with
  | red => exact ⟨⟨color_join .., replaced⟩, balanced.2⟩
  | black => exact ⟨replaced, balanced.2⟩

/-- A red far child of the sibling makes up for the missing node. -/
theorem far_child_fits
    (balanced : TreePath.Balanced (⟨side, c, parent, join side .black near item far⟩ :: up) (n + 1))
    (tree : t.Balanced n) (far_red : far.color = .red) :
    ∃ m, TreePath.Fits up (join side c (join side .black t parent near) item (far.paint .black)) m := by
  obtain ⟨near_balanced, far_balanced⟩ := balanced_black.mp balanced.sibling
  have painted := far_balanced.paint_black far_red
  have mended : (join side .black t parent near).Balanced (n + 1) :=
    balanced_black.mpr ⟨tree, near_balanced⟩
  cases c with
  | red =>
    obtain ⟨_, nonempty, above, rest⟩ := balanced
    have far_black : (far.paint .black).color = .black := by cases far <;> rfl
    refine ⟨n + 1, rest, balanced_red.mpr ⟨⟨color_join .., mended⟩, far_black, painted⟩, ?_,
      fun empty => absurd empty nonempty⟩
    intro red
    exact nomatch above.symm.trans red
  | black => exact ⟨n + 2, balanced.2, balanced_black.mpr ⟨mended, painted⟩, fun _ => color_join ..,
      fun _ => color_join ..⟩

end Deletion

end RedBlack

end LinuxZero
