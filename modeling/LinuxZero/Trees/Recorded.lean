import LinuxZero.Lib.AccessLog
import LinuxZero.Trees.Rotation

/-! # The program with a record of its accesses

The same functions once more, access by access in the order of the source. A field can only be read with an
entry in the record. Where all nodes that are read are real ones, or `nil` has got its parent from the
deletion, a function does what it does without the record.
-/

namespace LinuxZero.Trees

/-- Which function sets the parent of a node. -/
inductive Writer
  | rotation
  | insertion
  | deletion
deriving DecidableEq, Repr

inductive Access
  | readChild (p : ℕ) (side : Side)
  | readParent (p : ℕ)
  | readColor (p : ℕ)
  | readContent (p : ℕ)
  | writeChild (p : ℕ) (side : Side)
  | writeParent (writer : Writer) (p : ℕ)
  | writeColor (p : ℕ) (color : UInt8)
  | writeContent (p : ℕ)
  | writeRoot
  | sibling (w : ℕ)
  | grandparent (g : ℕ)
deriving DecidableEq, Repr

abbrev RbtreeProgram := Recording Rbtree Access

/-- What an operation may do with `nil` after what has been done before. -/
def Access.Permitted (nil : ℕ) (op : Writer) (nodes : List ℕ) (log : List Access) : Access → Prop
  | .readChild p _ => p ≠ nil
  | .readParent p => p ≠ nil ∨ .writeParent .deletion nil ∈ log
  | .readColor _ => True
  | .readContent p => p ≠ nil
  | .writeChild p _ => p ≠ nil
  | .writeParent writer p => (p ≠ nil ∨ writer = .deletion) ∧ (writer = .rotation ∨ writer = op)
  | .writeColor p color => p ≠ nil ∨ color = BLACK
  | .writeContent p => p ≠ nil
  | .writeRoot => True
  | .sibling w => w ∈ nodes
  | .grandparent g => g ∈ nodes

section Accesses

def readNil : RbtreeProgram ℕ := Recording.look Rbtree.nil

def readRoot : RbtreeProgram ℕ := Recording.look Rbtree.root

def readChild (p : ℕ) (side : Side) : RbtreeProgram ℕ :=
  .access (.readChild p side) fun T => (T.node p).child side

def readParent (p : ℕ) : RbtreeProgram ℕ := .access (.readParent p) fun T => (T.node p).parent

def readColor (p : ℕ) : RbtreeProgram UInt8 := .access (.readColor p) fun T => (T.node p).color

def readKey (p : ℕ) : RbtreeProgram ℤ := .access (.readContent p) fun T => (T.node p).key

def readValue (p : ℕ) : RbtreeProgram ℕ := .access (.readContent p) fun T => (T.node p).value

def writeChild (p : ℕ) (side : Side) (q : ℕ) : RbtreeProgram PUnit :=
  .update (.writeChild p side) (·.modify p (.setChild side q))

def writeParent (writer : Writer) (p q : ℕ) : RbtreeProgram PUnit :=
  .update (.writeParent writer p) (·.modify p (.setParent q))

def writeColor (p : ℕ) (color : UInt8) : RbtreeProgram PUnit :=
  .update (.writeColor p color) (·.setColor p color)

def writeContent (p : ℕ) (key : ℤ) (value : ℕ) : RbtreeProgram PUnit :=
  .update (.writeContent p) (·.modify p fun node => { node with key := key, value := value })

def writeRoot (p : ℕ) : RbtreeProgram PUnit := .update .writeRoot fun T => { T with root := p }

end Accesses

/-- `new` takes the place of `old` below its parent. -/
def recordRelink (side : Side) (old new : ℕ) : RbtreeProgram PUnit := do
  if (← readParent old) = (← readNil) then writeRoot new
  else
    if old = (← readChild (← readParent old) side) then writeChild (← readParent old) side new
    else writeChild (← readParent old) side.other new

/-- The subtree between the two nodes gets a new parent. -/
def recordReparent (side : Side) (x y : ℕ) : RbtreeProgram PUnit := do
  if (← readChild y side) ≠ (← readNil) then writeParent .rotation (← readChild y side) x
  else pure ⟨⟩

/-- `rbtree_left_rotate` and `rbtree_right_rotate`. -/
def recordRotate (side : Side) (x : ℕ) : RbtreeProgram PUnit := do
  let y ← readChild x side.other
  writeChild x side.other (← readChild y side)
  recordReparent side x y
  writeParent .rotation y (← readParent x)
  recordRelink side x y
  writeChild y side x
  writeParent .rotation x y

/-- `z->parent->parent` in `rbtree_insert_fixup`. -/
def readGrandparent (z : ℕ) : RbtreeProgram ℕ := do
  let g ← readParent (← readParent z)
  Recording.note (.grandparent g)
  pure g

/-- An inner child is exchanged with its parent. -/
def recordInnerChild (side : Side) (z : ℕ) : RbtreeProgram ℕ := do
  if z = (← readChild (← readParent z) side.other) then
    let z ← readParent z
    recordRotate side z
    pure z
  else pure z

/-- The uncle is black. -/
def recordBlackUncle (side : Side) (z : ℕ) : RbtreeProgram ℕ := do
  let z ← recordInnerChild side z
  writeColor (← readParent z) BLACK
  writeColor (← readGrandparent z) RED
  recordRotate side.other (← readGrandparent z)
  pure z

/-- A round of `rbtree_insert_fixup`. -/
def recordInsertFixupRound (side : Side) (z : ℕ) : RbtreeProgram ℕ := do
  let y ← readChild (← readGrandparent z) side.other
  if (← readColor y) = RED then
    writeColor (← readParent z) BLACK
    writeColor y BLACK
    writeColor (← readGrandparent z) RED
    readGrandparent z
  else recordBlackUncle side z

def recordInsertFixupBody (z : ℕ) : RbtreeProgram (ℕ ⊕ PUnit) := do
  if (← readColor (← readParent z)) = RED then
    if (← readParent z) = (← readChild (← readGrandparent z) .left) then
      let z ← recordInsertFixupRound .left z
      pure (.inl z)
    else
      let z ← recordInsertFixupRound .right z
      pure (.inl z)
  else pure (.inr ⟨⟩)

/-- `rbtree_insert_fixup`. -/
def recordInsertFixup (fuel z : ℕ) : RbtreeProgram PUnit := do
  Recording.loop recordInsertFixupBody fuel z
  writeColor (← readRoot) BLACK

def recordInsertSearchBody (z : ℕ) (place : ℕ × ℕ) : RbtreeProgram (ℕ × ℕ ⊕ Option ℕ) := do
  let (y, x) := place
  if x ≠ (← readNil) then
    if (← readKey z) < (← readKey x) then
      let left ← readChild x .left
      pure (.inl (x, left))
    else
      if (← readKey z) > (← readKey x) then
        let right ← readChild x .right
        pure (.inl (x, right))
      else pure (.inr none)
  else pure (.inr (some y))

def recordLinkBelow (z y : ℕ) : RbtreeProgram PUnit := do
  if y = (← readNil) then writeRoot z
  else
    if (← readKey z) < (← readKey y) then writeChild y .left z
    else writeChild y .right z

def recordInsertBelow (z y : ℕ) : RbtreeProgram PUnit := do
  writeParent .insertion z y
  recordLinkBelow z y
  writeChild z .left (← readNil)
  writeChild z .right (← readNil)
  writeColor z RED

/-- `rbtree_insert`. -/
def recordInsert (fuel z : ℕ) : RbtreeProgram PUnit := do
  match ← Recording.loop (recordInsertSearchBody z) fuel (← readNil, ← readRoot) with
  | none => pure ⟨⟩
  | some y =>
    recordInsertBelow z y
    recordInsertFixup fuel z

/-- `w = x->parent->right` in `rbtree_delete_fixup`, or the left one. -/
def readSibling (side : Side) (x : ℕ) : RbtreeProgram ℕ := do
  let w ← readChild (← readParent x) side.other
  Recording.note (.sibling w)
  pure w

def recordRedSibling (side : Side) (x w : ℕ) : RbtreeProgram ℕ := do
  if (← readColor w) = RED then
    writeColor w BLACK
    writeColor (← readParent x) RED
    recordRotate side (← readParent x)
    readSibling side x
  else pure w

def recordRedNearChild (side : Side) (x w : ℕ) : RbtreeProgram ℕ := do
  if (← readColor (← readChild w side.other)) = BLACK then
    writeColor (← readChild w side) BLACK
    writeColor w RED
    recordRotate side.other w
    readSibling side x
  else pure w

def recordRedFarChild (side : Side) (x w : ℕ) : RbtreeProgram PUnit := do
  writeColor w (← readColor (← readParent x))
  writeColor (← readParent x) BLACK
  writeColor (← readChild w side.other) BLACK
  recordRotate side (← readParent x)

/-- Both halves of the source look at the left child first. -/
def recordBlackChildren (w : ℕ) : RbtreeProgram Bool := do
  if (← readColor (← readChild w .left)) = BLACK then
    let color ← readColor (← readChild w .right)
    pure (decide (color = BLACK))
  else pure false

def recordBlackSibling (side : Side) (x w : ℕ) : RbtreeProgram ℕ := do
  if (← recordBlackChildren w) = true then
    writeColor w RED
    readParent x
  else
    let w ← recordRedNearChild side x w
    recordRedFarChild side x w
    readRoot

/-- A round of `rbtree_delete_fixup`. -/
def recordDeleteFixupRound (side : Side) (x : ℕ) : RbtreeProgram ℕ := do
  let w ← readSibling side x
  let w ← recordRedSibling side x w
  recordBlackSibling side x w

def recordDeleteFixupBody (x : ℕ) : RbtreeProgram (ℕ ⊕ ℕ) := do
  if x ≠ (← readRoot) then
    if (← readColor x) = BLACK then
      if x = (← readChild (← readParent x) .left) then
        let x ← recordDeleteFixupRound .left x
        pure (.inl x)
      else
        let x ← recordDeleteFixupRound .right x
        pure (.inl x)
    else pure (.inr x)
  else pure (.inr x)

/-- `rbtree_delete_fixup`. -/
def recordDeleteFixup (fuel x : ℕ) : RbtreeProgram PUnit := do
  writeColor (← Recording.loop recordDeleteFixupBody fuel x) BLACK

def recordMiniBody (x : ℕ) : RbtreeProgram (ℕ ⊕ ℕ) := do
  if (← readChild x .left) ≠ (← readNil) then
    let left ← readChild x .left
    pure (.inl left)
  else pure (.inr x)

def recordSuccessorBody (place : ℕ × ℕ) : RbtreeProgram (ℕ × ℕ ⊕ ℕ) := do
  let (x, y) := place
  if y ≠ (← readNil) then
    if x = (← readChild y .right) then
      let parent ← readParent y
      pure (.inl (y, parent))
    else pure (.inr y)
  else pure (.inr y)

/-- `rbtree_successor`. -/
def recordSuccessor (fuel x : ℕ) : RbtreeProgram ℕ := do
  let y ← readParent x
  if (← readChild x .right) ≠ (← readNil) then
    Recording.loop recordMiniBody fuel (← readChild x .right)
  else Recording.loop recordSuccessorBody fuel (x, y)

/-- The only child of `y`, or `nil`. -/
def recordOnlyChild (y : ℕ) : RbtreeProgram ℕ := do
  if (← readChild y .left) ≠ (← readNil) then readChild y .left
  else
    if (← readChild y .right) ≠ (← readNil) then readChild y .right
    else readNil

def recordMoveContent (z y : ℕ) : RbtreeProgram PUnit := do
  if y ≠ z then writeContent z (← readKey y) (← readValue y) else pure ⟨⟩

/-- `z->left == T->nil || z->right == T->nil`. -/
def recordChildMissing (z : ℕ) : RbtreeProgram Bool := do
  if (← readChild z .left) = (← readNil) then pure true
  else
    let right ← readChild z .right
    let nil ← readNil
    pure (decide (right = nil))

/-- The node that is taken out. -/
def recordVictim (fuel z : ℕ) : RbtreeProgram ℕ := do
  if (← recordChildMissing z) = true then pure z else recordSuccessor fuel z

/-- `rbtree_delete`. -/
def recordDelete (fuel z : ℕ) : RbtreeProgram ℕ := do
  let y ← recordVictim fuel z
  let x ← recordOnlyChild y
  writeParent .deletion x (← readParent y)
  recordRelink .left y x
  recordMoveContent z y
  if (← readColor y) = BLACK then
    recordDeleteFixup fuel x
    pure y
  else pure y

/-- The program may go on like the functions without the record. -/
abbrev Follows (nil : ℕ) (op : Writer) (nodes : List ℕ) (facts : List Access) (T : Rbtree)
    {α : Type} (program : RbtreeProgram α) (value : α) (T' : Rbtree) : Prop :=
  Performs (Access.Permitted nil op nodes) facts T program value T'

/-- The parent of the node can be read. -/
def ParentKnown (nil : ℕ) (facts : List Access) (p : ℕ) : Prop :=
  p ≠ nil ∨ .writeParent .deletion nil ∈ facts

end LinuxZero.Trees

namespace LinuxZero.Performs

open Trees

variable {nil : ℕ} {op : Writer} {nodes : List ℕ} {facts : List Access} {T : Rbtree} {p q x y : ℕ}
  {side : Side}

theorem readNil : Follows nil op nodes facts T Trees.readNil T.nil T := .look _

theorem readRoot : Follows nil op nodes facts T Trees.readRoot T.root T := .look _

theorem readChild (real : p ≠ nil) :
    Follows nil op nodes facts T (Trees.readChild p side) ((T.node p).child side) T :=
  .access _ fun _ _ => real

theorem readParent (known : ParentKnown nil facts p) :
    Follows nil op nodes facts T (Trees.readParent p) (T.node p).parent T :=
  .access _ fun _ within => known.imp id (within ·)

theorem readParent_eq (known : ParentKnown nil facts p) (parent : (T.node p).parent = q) :
    Follows nil op nodes facts T (Trees.readParent p) q T := parent ▸ .readParent known

theorem readColor : Follows nil op nodes facts T (Trees.readColor p) (T.node p).color T :=
  .access _ fun _ _ => trivial

theorem readKey (real : p ≠ nil) :
    Follows nil op nodes facts T (Trees.readKey p) (T.node p).key T := .access _ fun _ _ => real

theorem readValue (real : p ≠ nil) :
    Follows nil op nodes facts T (Trees.readValue p) (T.node p).value T := .access _ fun _ _ => real

theorem writeChild (real : p ≠ nil) :
    Follows nil op nodes facts T (Trees.writeChild p side q) ⟨⟩ (T.modify p (.setChild side q)) :=
  .update _ fun _ _ => real

theorem writeParent {writer : Writer} (allowed : p ≠ nil) (own : writer = .rotation ∨ writer = op) :
    Follows nil op nodes facts T (Trees.writeParent writer p q) ⟨⟩ (T.modify p (.setParent q)) :=
  .update _ fun _ _ => ⟨Or.inl allowed, own⟩

theorem writeColor {color : UInt8} (allowed : p ≠ nil ∨ color = BLACK) :
    Follows nil op nodes facts T (Trees.writeColor p color) ⟨⟩ (T.setColor p color) :=
  .update _ fun _ _ => allowed

theorem writeContent {key : ℤ} {value : ℕ} (real : p ≠ nil) :
    Follows nil op nodes facts T (Trees.writeContent p key value) ⟨⟩
    (T.modify p fun node => { node with key := key, value := value }) := .update _ fun _ _ => real

theorem writeRoot : Follows nil op nodes facts T (Trees.writeRoot p) ⟨⟩ { T with root := p } :=
  .update _ fun _ _ => trivial

theorem relink (same : T.nil = nil) (real : p ≠ nil) :
    Follows nil op nodes facts T (recordRelink side p q) ⟨⟩ (relink T side (T.node p).parent p q) := by
  unfold recordRelink Trees.relink
  refine .bind (.readParent (Or.inl real)) (.bind .readNil ?_)
  by_cases root : (T.node p).parent = T.nil
  · rw [if_pos root, if_pos root]
    exact .writeRoot
  · have above : (T.node p).parent ≠ nil := same ▸ root
    rw [if_neg root, if_neg root]
    refine .bind (.readParent (Or.inl real)) (.bind (.readChild above) ?_)
    split_ifs
    · exact .bind (.readParent (Or.inl real)) (.writeChild above)
    · exact .bind (.readParent (Or.inl real)) (.writeChild above)

theorem reparent (same : T.nil = nil) (real : y ≠ nil) :
    Follows nil op nodes facts T (recordReparent side x y) ⟨⟩
      (Trees.reparent T ((T.node y).child side) x) := by
  unfold recordReparent Trees.reparent
  refine .bind (.readChild real) (.bind .readNil ?_)
  split_ifs with inner
  · exact .bind (.readChild real) (.writeParent (same ▸ inner) (Or.inl rfl))
  · exact .pure _

/-- A rotation needs both nodes. -/
theorem rotate (same : T.nil = nil) (lower : x ≠ nil) (upper : (T.node x).child side.other ≠ nil) :
    Follows nil op nodes facts T (recordRotate side x) ⟨⟩ (Trees.rotate T side x) := by
  refine .bind (.readChild lower) (.bind (.readChild upper) (.bind (.writeChild lower) ?_))
  refine .bind (.reparent same upper)
    (.bind (.readParent (Or.inl lower)) (.bind (.writeParent upper (Or.inl rfl)) ?_))
  refine .bind (.relink (by simp only [nil_modify, nil_reparent, same]) lower) ?_
  exact .bind (.writeChild upper) (.writeParent lower (Or.inl rfl))

end LinuxZero.Performs
