import LinuxZero.Trees.NilAccess
import LinuxZero.Trees.TreeRuns

/-! # What insertions and deletions do with `nil`

The links of `nil` are whatever its memory held before. No operation reads its children, and its parent is read
only after the same deletion has set it.
-/

namespace LinuxZero.Trees

open RedBlack ColorTree

variable {T : Rbtree} {nil n x y z : ℕ} {op : Writer} {nodes : List ℕ} {facts : List Access}
  {c : Color} {t child : ColorTree Item} {item : Item}
  {path : TreePath Item}

section Insertion

theorem insertSearch_mirrors (same : T.nil = nil) (real : z ≠ nil) (u : ℕ × ℕ) :
    Mirrors (Access.Permitted nil op nodes) facts (fun _ => T) id (fun _ : Option ℕ => T) id
      (recordInsertSearchBody z) u
      (insertSearch T (T.node z).key u) := by
  obtain ⟨y, x⟩ := u
  by_cases inner : x ≠ T.nil
  · have inside : x ≠ nil := same ▸ inner
    by_cases less : (T.node z).key < (T.node x).key
    · have round : insertSearch T (T.node z).key (y, x) = .inl (x, (T.node x).left) := by
        simp only [insertSearch, if_pos inner, if_pos less]
      rw [round]
      refine .bind .readNil
        (.of_pos inner (.bind (.readKey real) (.bind (.readKey inside) (.of_pos less ?_))))
      exact .bind (.readChild inside) (.pure _)
    by_cases greater : (T.node z).key > (T.node x).key
    · have round : insertSearch T (T.node z).key (y, x) = .inl (x, (T.node x).right) := by
        simp only [insertSearch, if_pos inner, if_neg less, if_pos greater]
      rw [round]
      refine .bind .readNil
        (.of_pos inner (.bind (.readKey real) (.bind (.readKey inside) (.of_neg less ?_))))
      refine .bind (.readKey real) (.bind (.readKey inside) (.of_pos greater ?_))
      exact .bind (.readChild inside) (.pure _)
    · have round : insertSearch T (T.node z).key (y, x) = .inr none := by
        simp only [insertSearch, if_pos inner, if_neg less, if_neg greater]
      rw [round]
      refine .bind .readNil
        (.of_pos inner (.bind (.readKey real) (.bind (.readKey inside) (.of_neg less ?_))))
      exact .bind (.readKey real) (.bind (.readKey inside) (.of_neg greater (.pure _)))
  · have round : insertSearch T (T.node z).key (y, x) = .inr (some y) := by
      simp only [insertSearch, if_neg inner]
    rw [round]
    exact .bind .readNil (.of_neg inner (.pure _))

theorem linkBelow_follows (same : T.nil = nil) (real : z ≠ nil) (y : ℕ) :
    Follows nil op nodes facts T (recordLinkBelow z y) ⟨⟩ (linkBelow T z y) := by
  refine .bind .readNil ?_
  by_cases root : y = T.nil
  · have link : linkBelow T z y = _ := if_pos root
    rw [link]
    exact .of_pos root .writeRoot
  · have below : y ≠ nil := same ▸ root
    have link : linkBelow T z y = _ := if_neg root
    rw [link]
    refine .of_neg root (.bind (.readKey real) (.bind (.readKey below) ?_))
    split_ifs
    · exact .writeChild below
    · exact .writeChild below

theorem insertBelow_follows (same : T.nil = nil) (real : z ≠ nil) (y : ℕ) :
    Follows nil .insertion nodes facts T (recordInsertBelow z y) ⟨⟩ (insertBelow T z y) := by
  refine .bind (.writeParent real (Or.inr rfl))
    (.bind (linkBelow_follows (T := T.modify z _) same real y) (.bind .readNil ?_))
  exact .bind (.writeChild real) (.bind .readNil (.bind (.writeChild real) (.writeColor (Or.inl real))))

/-- `rbtree_insert` with the record. -/
theorem rbtree_insert_follows (tree : SearchTree T t) (fresh : z ∉ treePtrs t) (real : z ≠ T.nil) :
    ∃ T' t', Computes (fun fuel => rbtree_insert T fuel z) T' ∧ Holds T' [] t' ∧
      Completes (Access.Permitted T.nil .insertion (treePtrs t'))
    [] T (fun fuel => recordInsert fuel z) ⟨⟩ T' := by
  obtain ⟨⟨holds, n, fits⟩, sorted⟩ := tree
  have start : (T.nil, T.root) = (parentOf T.nil [], ptrOf T.nil t) := Prod.ext rfl holds.root
  have search {nodes : List ℕ} {result : Option ℕ}
      (returns : Loop.Returns (insertSearch T (T.node z).key) (parentOf T.nil [], ptrOf T.nil t) result) :
      Completes (Access.Permitted T.nil .insertion nodes) [] T
        (fun fuel => Recording.loop (recordInsertSearchBody z) fuel (T.nil, T.root))
        result T := by
    rw [start]
    exact Completes.loop (fun _ => True) (fun _ _ _ _ => trivial)
      (fun u _ => insertSearch_mirrors rfl real u) returns trivial
  unfold rbtree_insert
  rw [start]
  rcases insertSearch_returns [] holds fits sorted ⟨nofun, nofun⟩ with ⟨item, -, -, returns⟩ |
      ⟨path, m, same, below, toward, returns⟩
  · refine ⟨T, t, Computes.bind (Computes.of_returns returns) (Computes.pure T), holds, ?_⟩
    refine .bind (Performs.completes .readNil) (.bind (Performs.completes .readRoot) ?_)
    exact (search returns).bind (Performs.completes (.pure _))
  · obtain rfl : t = path.fill .leaf := same.symm
    have outside : z ∉ pathPtrs path := fun member => fresh (mem_treePtrs_fill.mpr (Or.inr member))
    obtain rfl : m = 0 := below.tree
    obtain ⟨linked, nil⟩ := insertBelow_holds (holds_fill.mp holds) outside real toward
    have focus : RedFocus (insertBelow T z (parentOf T.nil path)) path _ 0 :=
      ⟨linked, rfl, ⟨⟨rfl, rfl⟩, rfl, rfl⟩, below.above⟩
    obtain ⟨T₁, -, -, -, returns', -⟩ := insertFixupLoop_returns focus
    obtain ⟨T', t', computes, -, represents, order⟩ := rbtree_insert_fixup_computes focus
    obtain rfl := computes.unique (Computes.of_returns returns').map
    have ptrs : treePtrs t' = treePtrs
      (path.fill (.node .red .leaf ⟨z, (T.node z).key, (T.node z).value⟩ .leaf)) :=
      congrArg (List.map _) order
    refine ⟨_, t', Computes.bind (Computes.of_returns returns) computes, represents.holds, ?_⟩
    refine .bind (Performs.completes .readNil)
      (.bind (Performs.completes .readRoot) ((search returns).bind ?_))
    refine .bind (insertBelow_follows rfl real _).completes ?_
    have fixup : Completes (Access.Permitted _ .insertion (treePtrs t')) [] _ _ _ _ :=
      insertFixup_completes focus (ptrs ▸ List.Subset.refl _) returns'
    rwa [nil] at fixup

end Insertion

section Deletion

theorem miniLoop_mirrors (real : x ≠ nil) :
    Mirrors (Access.Permitted nil op nodes) facts (fun _ => T) id (fun _ : ℕ => T) id recordMiniBody
    x (miniLoop T x) := by
  by_cases further : (T.node x).left ≠ T.nil
  · have round : miniLoop T x = _ := if_pos further
    rw [round]
    exact .bind (.readChild real) (.bind .readNil (.of_pos further (.bind (.readChild real) (.pure _))))
  · have round : miniLoop T x = _ := if_neg further
    rw [round]
    exact .bind (.readChild real) (.bind .readNil (.of_neg further (.pure _)))

theorem successor_completes (real : z ≠ T.nil) (further : (T.node z).right ≠ T.nil)
    (returns : Loop.Returns (miniLoop T) (T.node z).right y) :
    Completes (Access.Permitted T.nil op nodes) facts T (fun fuel => recordSuccessor fuel z) y T := by
  have loop : Completes (Access.Permitted T.nil op nodes) facts _ _ _ _ :=
    Completes.loop (fun x => x ≠ T.nil)
    (fun u v inside round => by
      rw [miniLoop] at round
      split_ifs at round with more
      exact Sum.inl.inj round ▸ more)
    (fun u inside => miniLoop_mirrors inside) returns further
  refine .bind (Performs.completes (.readParent (Or.inl real)))
    (.bind (Performs.completes (.readChild real)) ?_)
  refine .bind (Performs.completes .readNil)
    (.of_pos further (.bind (Performs.completes (.readChild real)) loop))

theorem childMissing_follows (real : z ≠ nil) :
    Follows nil op nodes facts T (recordChildMissing z)
      (decide ((T.node z).left = T.nil ∨ (T.node z).right = T.nil)) T := by
  refine .bind (.readChild real) (.bind .readNil ?_)
  by_cases left : (T.node z).left = T.nil
  · rw [decide_eq_true (Or.inl left)]
    exact .of_pos left (.pure _)
  · rw [decide_eq_decide.mpr (or_iff_right left)]
    exact .of_neg left (.bind (.readChild real) (.bind .readNil (.pure _)))

theorem onlyChild_follows (real : y ≠ nil) :
    Follows nil op nodes facts T (recordOnlyChild y) (unlink T y).2 T := by
  unfold unlink
  refine .bind (.readChild real) (.bind .readNil ?_)
  by_cases left : (T.node y).left ≠ T.nil
  · rw [if_pos left]
    exact .of_pos left (.readChild real)
  · rw [if_neg left]
    refine .of_neg left (.bind (.readChild real) (.bind .readNil ?_))
    by_cases right : (T.node y).right ≠ T.nil
    · rw [if_pos right]
      exact .of_pos right (.readChild real)
    · rw [if_neg right]
      exact .of_neg right .readNil

theorem moveContent_follows (lower : z ≠ nil) (upper : y ≠ nil) :
    Follows nil op nodes facts T (recordMoveContent z y) ⟨⟩ (moveContent T z y) := by
  unfold recordMoveContent moveContent
  split_ifs
  · exact .bind (.readKey upper) (.bind (.readValue upper) (.writeContent lower))
  · exact .pure _

/-- The part of `rbtree_delete` that knows `y`, with the record. -/
def recordDeleteVictim (z y fuel : ℕ) : RbtreeProgram ℕ := do
  let x ← recordOnlyChild y
  writeParent .deletion x (← readParent y)
  recordRelink .left y x
  recordMoveContent z y
  if (← readColor y) = BLACK then
    recordDeleteFixup fuel x
    pure y
  else pure y

theorem Unlinked.completes (unlinked : Unlinked T z y path child c) (lower : z ≠ T.nil)
    (upper : y ≠ T.nil) :
    ∃ T' t', Computes (deleteVictim T z y) (y, T') ∧ Holds T' [] t' ∧
      Completes (Access.Permitted T.nil .deletion (treePtrs t')) [] T (recordDeleteVictim z y) y T' := by
  obtain ⟨x_eq, nil, focused, color, red, black⟩ := unlinked
  -- up to the balancing
  have prefix_completes {nodes : List ℕ} {T' : Rbtree}
      (rest : Completes (Access.Permitted T.nil .deletion nodes)
      [.writeParent .deletion (ptrOf T.nil child)]
        (moveContent (unlink T y).1 z y) (fun fuel => do
          if (← readColor y) = BLACK then
            recordDeleteFixup fuel (ptrOf T.nil child)
            pure y
          else pure y) y T') :
      Completes (Access.Permitted T.nil .deletion nodes) [] T (recordDeleteVictim z y) y T' := by
    rw [← x_eq] at rest
    refine .bind (Performs.completes (onlyChild_follows upper))
      (.bind (Performs.completes (.readParent (Or.inl upper))) ?_)
    refine .bind_update (fun _ _ => ⟨Or.inr rfl, Or.inr rfl⟩)
      (.bind (Performs.completes (.relink rfl upper)) ?_)
    exact .bind (Performs.completes (moveContent_follows lower upper)) rest
  have known : ParentKnown T.nil [.writeParent .deletion (ptrOf T.nil child)] (ptrOf T.nil child) := by
    by_cases null : ptrOf T.nil child = T.nil
    · exact Or.inr (by rw [null]; exact List.mem_singleton_self _)
    · exact Or.inl null
  unfold deleteVictim
  simp only [x_eq]
  generalize moveContent (unlink T y).1 z y = T₁ at nil focused color prefix_completes ⊢
  cases c with
  | red =>
    have not_black : (T₁.node y).color ≠ BLACK := by
      rw [color]
      decide
    simp only [if_neg not_black]
    refine ⟨T₁, path.fill child, Computes.pure _, holds_fill.mpr focused.toHolds, prefix_completes ?_⟩
    exact .bind (Performs.completes .readColor) (.of_neg not_black (Performs.completes (.pure _)))
  | black =>
    obtain ⟨m, short, above⟩ := black rfl
    have is_black : (T₁.node y).color = BLACK := color
    simp only [if_pos is_black]
    obtain ⟨_, -, _, -, returns, -⟩ := deleteFixupLoop_returns path focused short above
    obtain ⟨T', t', computes, -, represents, order⟩ := rbtree_delete_fixup_computes focused short above
    obtain rfl := computes.unique (Computes.of_returns returns).map
    have ptrs : treePtrs t' = treePtrs (path.fill child) := congrArg (List.map _) order
    rw [← nil] at known prefix_completes ⊢
    have fixup : Completes (Access.Permitted T₁.nil .deletion (treePtrs t')) _ T₁ _ _ _ :=
      deleteFixup_completes focused short above (ptrs ▸ List.Subset.refl _) known returns
    refine ⟨_, t', computes.map, represents.holds, prefix_completes ?_⟩
    exact .bind (Performs.completes .readColor)
      (.of_pos is_black (fixup.bind (Performs.completes (.pure _))))

/-- `rbtree_delete` with the record. -/
theorem rbtree_delete_follows (tree : SearchTree T t) (member : item ∈ t.inorder) :
    ∃ y T' t', Computes (fun fuel => rbtree_delete T fuel item.ptr) (y, T') ∧ Holds T' [] t' ∧
      Completes (Access.Permitted T.nil .deletion (treePtrs t'))
    [] T (fun fuel => recordDelete fuel item.ptr) y T' := by
  obtain ⟨⟨holds, n, fits⟩, sorted⟩ := tree
  have real : item.ptr ≠ T.nil := fun null => holds.nonnil_tree (null ▸ List.mem_map_of_mem member)
  obtain ⟨path, c, left, right, rfl⟩ := TreePath.exists_fill member
  obtain ⟨m, fits⟩ : ∃ m, TreePath.Fits path (.node c left item right) m := by
    have whole := fits.append
    rwa [List.append_nil] at whole
  replace holds := holds_fill.mp holds
  have first {nodes : List ℕ} : Completes (Access.Permitted T.nil .deletion nodes) [] T
    (fun _ => recordChildMissing item.ptr) _ _ :=
    (childMissing_follows real).completes
  unfold rbtree_delete
  cases holds.victim with
  | itself s child shape missing =>
    rw [shape] at holds fits
    obtain ⟨T', t', computes, holds', completes⟩ := (unlinked_itself holds fits).completes real real
    simp only [if_pos missing]
    refine ⟨item.ptr, T', t', Computes.bind (Computes.pure _) computes, holds', ?_⟩
    exact .bind (first.bind (.of_pos (decide_eq_true missing) (Performs.completes (.pure _)))) completes
  | @successor y low cy yr leftmost left_real right_real returns =>
    have inside : y.ptr ≠ T.nil := fun null => holds.nonnil_tree
      (null ▸ (mem_treePtrs_join (s := .left)).mpr
        (Or.inr (Or.inr (mem_treePtrs_fill.mpr (Or.inl root_mem)))))
    obtain ⟨T', t', computes, holds', completes⟩ := (unlinked_successor holds fits).completes real inside
    have both := not_or.mpr ⟨left_real, right_real⟩
    simp only [if_neg both]
    refine ⟨_, T', t', Computes.bind (rbtree_successor_computes right_real returns) computes, holds', ?_⟩
    refine .bind (first.bind (.of_neg ?_ (successor_completes real right_real returns))) completes
    rw [decide_eq_true_eq]
    exact both

end Deletion

/-- What a record says about the use of `nil`, and which nodes are siblings and grandparents. -/
structure RespectsNil (nil : ℕ) (T' : Rbtree) (log : List Access) : Prop where
  children : ∀ side, .readChild nil side ∉ log
  parent : ∀ before after, log = before ++ .readParent nil :: after → .writeParent .deletion nil ∈ before
  writer : ∀ writer, .writeParent writer nil ∈ log → writer = .deletion
  color : ∀ color, .writeColor nil color ∈ log → color = BLACK
  sibling : ∀ w, .sibling w ∈ log → InTree T' w
  grandparent : ∀ g, .grandparent g ∈ log → InTree T' g

theorem permitted_of_mem {log : List Access} {event : Access}
    (lawful : Lawful (Access.Permitted nil op nodes) log) (member : event ∈ log) :
    ∃ before, event.Permitted nil op nodes before := by
  obtain ⟨before, after, split⟩ := List.append_of_mem member
  exact ⟨before, lawful.permitted split⟩

theorem respectsNil {T' : Rbtree} {t' : ColorTree Item} {log : List Access}
    (lawful : Lawful (Access.Permitted nil op (treePtrs t')) log) (holds : Holds T' [] t') :
    RespectsNil nil T' log where
  children := fun side member => by
    obtain ⟨_, permitted⟩ := permitted_of_mem lawful member
    exact permitted rfl
  parent := fun before after split => (lawful.permitted split).resolve_left fun real => real rfl
  writer := fun writer member => by
    obtain ⟨_, permitted, _⟩ := permitted_of_mem lawful member
    exact permitted.resolve_left fun real => real rfl
  color := fun color member => by
    obtain ⟨_, permitted⟩ := permitted_of_mem lawful member
    exact permitted.resolve_left fun real => real rfl
  sibling := fun w member => by
    obtain ⟨_, permitted⟩ := permitted_of_mem lawful member
    exact holds.inTree_iff.mpr permitted
  grandparent := fun g member => by
    obtain ⟨_, permitted⟩ := permitted_of_mem lawful member
    exact holds.inTree_iff.mpr permitted

/-- An insertion does not touch the parent of `nil`. -/
theorem insertion_parent {log : List Access}
    (lawful : Lawful (Access.Permitted nil .insertion nodes) log) (writer : Writer) :
    .readParent nil ∉ log ∧ .writeParent writer nil ∉ log := by
  have unwritten : ∀ writer, .writeParent writer nil ∉ log := by
    intro writer member
    obtain ⟨_, allowed, own⟩ := permitted_of_mem lawful member
    obtain rfl := allowed.resolve_left fun real => real rfl
    exact own.elim nofun nofun
  refine ⟨fun member => ?_, unwritten writer⟩
  obtain ⟨before, after, split⟩ := List.append_of_mem member
  have written := (lawful.permitted split).resolve_left fun real => real rfl
  exact unwritten .deletion (split ▸ List.mem_append_left _ written)

/-- The operation returns with this record. -/
def Records {α : Type} (T : Rbtree) (program : ℕ → RbtreeProgram α) (value : α) (T' : Rbtree)
    (log : List Access) : Prop :=
  Computes (fun fuel => program fuel ⟨T, []⟩) (value, ⟨T', log⟩)

theorem records_of_completes {α : Type} {program : ℕ → RbtreeProgram α} {value : α} {T' : Rbtree}
    (completes : Completes (Access.Permitted nil op nodes) [] T program value T') :
    ∃ log, Records T program value T' log ∧ Lawful (Access.Permitted nil op nodes) log :=
  completes [] .nil (List.nil_subset _)

/-- In every reachable tree an operation returns, what it does is what the operation without the record does, and it
uses `nil` as the record says; `nil` stays black. -/
theorem nil_links_unused {events : List TreeEvent} {start : Rbtree} (empty : IsEmpty start)
    (run : Run TreeStep start events T) :
    (∀ z fields, Fresh T z → ∃ T' log, TreeStep T (.insert z fields) T' ∧
      Records (T.allocate z fields) (recordInsert · z) ⟨⟩ T' log ∧ RespectsNil T.nil T' log ∧
      (∀ writer, .readParent T.nil ∉ log ∧ .writeParent writer T.nil ∉ log) ∧ T'.nil = T.nil ∧
      (T'.node T'.nil).color = BLACK) ∧
    ∀ z, InTree T z → ∃ y T' log, Computes (fun fuel => rbtree_delete T fuel z) (y, T') ∧
      Records T (recordDelete · z) y T' log ∧ RespectsNil T.nil T' log ∧ T'.nil = T.nil ∧
      (T'.node T'.nil).color = BLACK := by
  obtain ⟨t, tree, -⟩ := Reached.of_run empty run
  refine ⟨fun z fields fresh => ?_, fun z inTree => ?_⟩
  · have outside : z ∉ treePtrs t := fun member => fresh.outside (tree.inTree_iff.mpr member)
    obtain ⟨T', t', computes, holds, completes⟩ :=
      rbtree_insert_follows (tree.allocate fresh fields) outside fresh.real
    obtain ⟨T₁, t₁, computes', inserted⟩ := tree.insert fresh fields
    rw [computes'.unique computes] at inserted
    obtain ⟨log, records, lawful⟩ := records_of_completes completes
    exact ⟨T', log, .insert fresh computes, records, respectsNil lawful holds,
      insertion_parent lawful, inserted.nil, holds.black⟩
  · obtain ⟨item, member, rfl⟩ := List.mem_map.mp (tree.inTree_iff.mp inTree)
    obtain ⟨y, T', t', computes, holds, completes⟩ := rbtree_delete_follows tree member
    obtain ⟨y₁, T₁, t₁, computes', removed⟩ := rbtree_delete_computes tree member
    obtain ⟨rfl, rfl⟩ := Prod.mk.inj (computes'.unique computes)
    obtain ⟨log, records, lawful⟩ := records_of_completes completes
    exact ⟨y₁, T₁, log, computes, records, respectsNil lawful holds, removed.nil, holds.black⟩

/-- The links of `nil` are 7 in the empty tree. -/
theorem twoNodes_delete_nil : (noNodes.node noNodes.nil).parent = 7 ∧
    (noNodes.node noNodes.nil).left = 7 ∧
    ∃ y T' log, Computes (fun fuel => rbtree_delete twoNodes fuel 1) (y, T') ∧
      Records twoNodes (recordDelete · 1) y T' log ∧ RespectsNil twoNodes.nil T' log := by
  have run : Run TreeStep noNodes [.insert 1 (entry 5 50), .insert 2 (entry 3 30)] twoNodes :=
    (Run.start.next (.insert noNodes_fresh oneNode_computes)).next
      (.insert oneNode_fresh twoNodes_computes)
  obtain ⟨y, T', log, computes, records, respects, -⟩ :=
    (nil_links_unused noNodes_empty run).2 1 twoNodes_root
  exact ⟨rfl, rfl, y, T', log, computes, records, respects⟩

end LinuxZero.Trees
