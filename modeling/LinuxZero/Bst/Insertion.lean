import LinuxZero.Bst.Layout

/-! # Inserting and finding

An insertion sets the key in the tree that the memory holds; the new node, or the one that has the key already,
is what it returns. A search returns the subtree whose root has the key.
-/

namespace LinuxZero.Bst

open OrderedTree

/-- The tree after an insertion. -/
def putItem (malloc : ℕ) (key : ℤ) (value : UInt8) (t : ItemTree) : ItemTree :=
  put Item.key key (fun item => { item with data := value }) ⟨malloc, key, value⟩ t

/-- `malloc` returns a node that is not allocated. -/
structure Fresh (M : Heap) (malloc : ℕ) : Prop where
  real : malloc ≠ 0
  free : M malloc = none

/-- The insertion has returned `x`, and the memory is `M'`. -/
structure Stores (M : Heap) (malloc : ℕ) (key : ℤ) (value : UInt8) (p : ℕ) (t : ItemTree) (x : ℕ)
    (M' : Heap) : Prop where
  found : ∃ item, find Item.key key (putItem malloc key value t) = some item ∧ item.ptr = x
  linked : Linked M' (putItem malloc key value t)
  parents : ParentsHold M' p (putItem malloc key value t)
  outside : ∀ y ∉ ptrs t, y ≠ malloc → M' y = M y

variable {M M' : Heap} {malloc x p : ℕ} {key : ℤ} {value : UInt8} {t left right : ItemTree} {item : Item}

theorem Fresh.ne_of_mem (fresh : Fresh M malloc) (linked : Linked M t) (member : x ∈ ptrs t) :
    x ≠ malloc := by
  rintro rfl
  exact (linked.allocated member).2 fresh.free

section Put

theorem find_putItem : find Item.key key (putItem malloc key value t) =
    some ((find Item.key key t).elim ⟨malloc, key, value⟩ fun item => { item with data := value }) :=
  find_put (fun _ => rfl) rfl

theorem find_putItem_of_ne {other : ℤ} (differ : other ≠ key) :
    find Item.key other (putItem malloc key value t) = find Item.key other t := by
  have kept : ∀ item : Item, Item.key { item with data := value } = item.key := fun _ => rfl
  have own : Item.key ⟨malloc, key, value⟩ = key := rfl
  exact find_put_of_ne kept own differ

theorem ptrOf_putItem (malloc : ℕ) (key : ℤ) (value : UInt8) (nonempty : t ≠ .nil) :
    ptrOf (putItem malloc key value t) = ptrOf t := by
  cases t with
  | nil => exact absurd rfl nonempty
  | node item left right =>
    rw [putItem, put]
    split_ifs <;> rfl

theorem mem_ptrs_putItem (member : x ∈ ptrs (putItem malloc key value t)) : x ∈ ptrs t ∨ x = malloc := by
  obtain ⟨item, inside, rfl⟩ := List.mem_map.mp member
  rcases mem_put inside with before | rfl | ⟨old, before, -, rfl⟩
  · exact Or.inl (List.mem_map_of_mem before)
  · exact Or.inr rfl
  · exact Or.inl (List.mem_map.mpr ⟨old, before, rfl⟩)

theorem nodup_putItem (fresh : malloc ∉ ptrs t) (nodup : (ptrs t).Nodup) :
    (ptrs (putItem malloc key value t)).Nodup := by
  induction t with
  | nil => exact List.nodup_singleton _
  | node item left right ihl ihr =>
    rw [mem_ptrs_node, not_or, not_or] at fresh
    obtain ⟨outLeft, differ, outRight⟩ := fresh
    obtain ⟨⟨lower, notLeft⟩, ⟨upper, notRight⟩, disjoint⟩ := nodup_ptrs_node.mp nodup
    rw [putItem, put]
    split_ifs
    · exact nodup_ptrs_node.mpr ⟨⟨lower, notLeft⟩, ⟨upper, notRight⟩, disjoint⟩
    · refine nodup_ptrs_node.mpr ⟨⟨ihl outLeft lower, fun member => ?_⟩, ⟨upper, notRight⟩,
        fun x member => ?_⟩
      · exact (mem_ptrs_putItem member).elim notLeft (Ne.symm differ)
      · exact (mem_ptrs_putItem member).elim (disjoint x) fun same => same ▸ outRight
    · refine nodup_ptrs_node.mpr ⟨⟨lower, notLeft⟩, ⟨ihr outRight upper, fun member => ?_⟩,
        fun x inside member => ?_⟩
      · exact (mem_ptrs_putItem member).elim notRight (Ne.symm differ)
      · exact (mem_ptrs_putItem member).elim (disjoint x inside) fun same => outLeft (same ▸ inside)

end Put

section Insert

/-- What a new node below `x` changes. -/
theorem create_below {n : TreeNode} (key : ℤ) (value : UInt8) (f : TreeNode → TreeNode)
    (fresh : Fresh M malloc) (held : M x = some n) :
    let M' := (create_node M malloc key value x 0 0).modify x f
    M' malloc = some ⟨key, value, x, 0, 0⟩ ∧ M' x = some (f n) ∧ ∀ y, y ≠ malloc → y ≠ x →
    M' y = M y := by
  have differ : x ≠ malloc := fun same => nomatch (same ▸ held).symm.trans fresh.free
  refine ⟨?_, ?_, fun y other other' => ?_⟩
  · rw [Heap.modify, Function.update_of_ne differ.symm, create_node, Function.update_self]
  · rw [Heap.modify, Function.update_self, create_node, Function.update_of_ne differ, held,
      Option.map_some]
  · rw [Heap.modify, Function.update_of_ne other', create_node, Function.update_of_ne other]

/-- The insertion has been below the root. -/
structure StoresBelow (M : Heap) (malloc : ℕ) (key : ℤ) (value : UInt8) (root : ℕ) (t : ItemTree)
    (x : ℕ) (M' : Heap) : Prop where
  found : ∃ item, find Item.key key (putItem malloc key value t) = some item ∧ item.ptr = x
  linked : Linked M' (putItem malloc key value t)
  parents : ParentsHold M' root (putItem malloc key value t)
  others : ∀ y ∉ ptrs t, y ≠ malloc → y ≠ root → M' y = M y

theorem Stores.below {root : ℕ} (stores : Stores M malloc key value root t x M') :
    StoresBelow M malloc key value root t x M' :=
  ⟨stores.found, stores.linked, stores.parents, fun y outside differ _ => stores.outside y outside differ⟩

theorem storesBelow_nil {n : TreeNode} (f : TreeNode → TreeNode) (fresh : Fresh M malloc)
    (held : M x = some n) :
    StoresBelow M malloc key value x .nil malloc ((create_node M malloc key value x 0 0).modify x f) := by
  obtain ⟨new, -, others⟩ := create_below key value f fresh held
  refine ⟨⟨⟨malloc, key, value⟩, find_here rfl, rfl⟩, ⟨fresh.real, ⟨x, new⟩, trivial, trivial⟩,
    ⟨?_, trivial, trivial⟩, fun y _ => others y⟩
  rw [new, Option.map_some]

theorem StoresBelow.in_left (stores : StoresBelow M malloc key value item.ptr left x M')
    (less : key < item.key)
    (held : M' item.ptr = some ⟨item.key, item.data, p, ptrOf (putItem malloc key value left),
      ptrOf right⟩) (fresh : Fresh M malloc)
    (linked : Linked M (.node item left right)) (nodup : (ptrs (.node item left right)).Nodup)
    (parents : ParentsHold M p (.node item left right)) :
    Stores M malloc key value p (.node item left right) x M' := by
  obtain ⟨-, ⟨-, notRight⟩, disjoint⟩ := nodup_ptrs_node.mp nodup
  have shape : putItem malloc key value (.node item left right) = .node item
    (putItem malloc key value left) right := put_left less
  have kept : ∀ y ∈ ptrs right, M' y = M y := fun y member => by
    refine stores.others y (fun inside => disjoint y inside member)
      (fresh.ne_of_mem linked.2.2.2 member) ?_
    exact fun same => notRight (same ▸ member)
  refine ⟨?_, ?_, ?_, fun y outside differ => ?_⟩
  · rw [shape, find_left less]
    exact stores.found
  · rw [shape]
    exact ⟨linked.1, ⟨p, held⟩, stores.linked, linked_congr kept linked.2.2.2⟩
  · rw [shape]
    exact ⟨by rw [held, Option.map_some], stores.parents,
      parentsHold_congr (fun y member => by rw [kept y member]) parents.2.2⟩
  · rw [mem_ptrs_node, not_or, not_or] at outside
    exact stores.others y outside.1 differ outside.2.1

theorem StoresBelow.in_right (stores : StoresBelow M malloc key value item.ptr right x M')
    (greater : item.key < key)
    (held : M' item.ptr =
      some ⟨item.key, item.data, p, ptrOf left, ptrOf (putItem malloc key value right)⟩)
    (fresh : Fresh M malloc) (linked : Linked M (.node item left right))
    (nodup : (ptrs (.node item left right)).Nodup)
    (parents : ParentsHold M p (.node item left right)) :
    Stores M malloc key value p (.node item left right) x M' := by
  obtain ⟨⟨-, notLeft⟩, -, disjoint⟩ := nodup_ptrs_node.mp nodup
  have shape : putItem malloc key value (.node item left right) = .node item left
    (putItem malloc key value right) := put_right greater
  have kept : ∀ y ∈ ptrs left, M' y = M y := fun y member => by
    refine stores.others y (disjoint y member) (fresh.ne_of_mem linked.2.2.1 member) ?_
    exact fun same => notLeft (same ▸ member)
  refine ⟨?_, ?_, ?_, fun y outside differ => ?_⟩
  · rw [shape, find_right greater]
    exact stores.found
  · rw [shape]
    exact ⟨linked.1, ⟨p, held⟩, linked_congr kept linked.2.2.1, stores.linked⟩
  · rw [shape]
    exact ⟨by rw [held, Option.map_some],
      parentsHold_congr (fun y member => by rw [kept y member]) parents.2.1, stores.parents⟩
  · rw [mem_ptrs_node, not_or, not_or] at outside
    exact stores.others y outside.2.2 differ outside.2.1

theorem stores_here (same : item.key = key)
    (held : M item.ptr = some ⟨item.key, item.data, p, ptrOf left, ptrOf right⟩)
    (linked : Linked M (.node item left right)) (nodup : (ptrs (.node item left right)).Nodup)
    (parents : ParentsHold M p (.node item left right)) :
    Stores M malloc key value p (.node item left right) item.ptr
      (M.modify item.ptr fun n => { n with data := value }) := by
  obtain ⟨⟨-, notLeft⟩, ⟨-, notRight⟩, -⟩ := nodup_ptrs_node.mp nodup
  have shape : putItem malloc key value (.node item left right) = .node { item with data := value }
    left right := put_here same
  have changed : M.modify item.ptr (fun n => { n with data := value }) item.ptr =
      some ⟨item.key, value, p, ptrOf left, ptrOf right⟩ := by
    rw [Heap.modify, Function.update_self, held, Option.map_some]
  have kept : ∀ y ≠ item.ptr, M.modify item.ptr (fun n => { n with data := value }) y = M y :=
    fun y differ => Function.update_of_ne differ ..
  have keptLeft := fun y (member : y ∈ ptrs left) => kept y fun same => notLeft (same ▸ member)
  have keptRight := fun y (member : y ∈ ptrs right) => kept y fun same => notRight (same ▸ member)
  refine ⟨⟨{ item with data := value }, ?_, rfl⟩, ?_, ?_, fun y outside _ => kept y fun same => ?_⟩
  · rw [shape]
    exact find_here same
  · rw [shape]
    exact ⟨linked.1, ⟨p, changed⟩, linked_congr keptLeft linked.2.2.1,
      linked_congr keptRight linked.2.2.2⟩
  · rw [shape]
    refine ⟨by rw [changed, Option.map_some], ?_, ?_⟩
    · exact parentsHold_congr (fun y member => by rw [keptLeft y member]) parents.2.1
    · exact parentsHold_congr (fun y member => by rw [keptRight y member]) parents.2.2
  · exact outside (same ▸ mem_ptrs_root)

theorem insert_node_computes (key : ℤ) (value : UInt8) (fresh : Fresh M malloc)
    (linked : Linked M t) (nodup : (ptrs t).Nodup) (parents : ParentsHold M p t)
    (nonempty : t ≠ .nil) :
    ∃ x M', Computes (fun fuel => insert_node malloc fuel M (ptrOf t) key value) (x, M') ∧
      Stores M malloc key value p t x M' := by
  induction t generalizing p with
  | nil => exact absurd rfl nonempty
  | node item left right ihl ihr =>
    have differ : item.ptr ≠ malloc := fresh.ne_of_mem linked mem_ptrs_root
    obtain ⟨⟨lowerNodup, notLeft⟩, ⟨upperNodup, notRight⟩, -⟩ := nodup_ptrs_node.mp nodup
    obtain ⟨real, ⟨p', held⟩, lower, upper⟩ := id linked
    obtain ⟨here, lowerParents, upperParents⟩ := id parents
    obtain rfl : p' = p := Option.some.inj (by rw [← here, held]; rfl)
    rcases lt_trichotomy key item.key with less | same | greater
    · have step : ∀ fuel, insert_node malloc (fuel + 1) M item.ptr key value = _ := fun fuel => by
        rw [insert_node_eq real held, if_neg less.ne', if_pos less]
      by_cases empty : left = .nil
      · subst empty
        have root := (create_below key value (fun n => { n with l := malloc }) fresh held).2.1
        exact ⟨_, _, Computes.of_step step (Computes.pure _),
          (storesBelow_nil _ fresh held).in_left less root fresh linked nodup parents⟩
      · obtain ⟨x, M', computes, stores⟩ := ihl lower lowerNodup lowerParents empty
        have root := (stores.outside _ notLeft differ).trans held
        rw [← ptrOf_putItem malloc key value empty] at root
        have inner := lower.ptrOf_eq_zero_iff.not.mpr empty
        exact ⟨x, M', Computes.of_step (fun fuel => (step fuel).trans (if_neg inner)) computes,
          stores.below.in_left less root fresh linked nodup parents⟩
    · refine ⟨_, _, Computes.of_step (fun fuel => ?_) (Computes.pure _),
        stores_here same.symm held linked nodup parents⟩
      rw [ptrOf_node, insert_node_eq real held, if_pos same.symm]
    · have step : ∀ fuel, insert_node malloc (fuel + 1) M item.ptr key value = _ := fun fuel => by
        rw [insert_node_eq real held, if_neg greater.ne, if_neg greater.not_gt]
      by_cases empty : right = .nil
      · subst empty
        have root := (create_below key value (fun n => { n with r := malloc }) fresh held).2.1
        exact ⟨_, _, Computes.of_step step (Computes.pure _),
          (storesBelow_nil _ fresh held).in_right greater root fresh linked nodup parents⟩
      · obtain ⟨x, M', computes, stores⟩ := ihr upper upperNodup upperParents empty
        have root := (stores.outside _ notRight differ).trans held
        rw [← ptrOf_putItem malloc key value empty] at root
        have inner := upper.ptrOf_eq_zero_iff.not.mpr empty
        exact ⟨x, M', Computes.of_step (fun fuel => (step fuel).trans (if_neg inner)) computes,
          stores.below.in_right greater root fresh linked nodup parents⟩

end Insert

section Find

theorem find_node_computes (linked : Linked M t) (key : ℤ) :
    Computes (fun fuel => find_node fuel M (ptrOf t) key) (ptrOf (subtree Item.key key t)) := by
  induction t with
  | nil => exact Computes.of_step (fun _ => if_pos rfl) (Computes.pure _)
  | node item left right ihl ihr =>
    obtain ⟨real, ⟨p, held⟩, lower, upper⟩ := linked
    rcases lt_trichotomy key item.key with less | same | greater
    · rw [subtree_left less]
      refine Computes.of_step (fun fuel => ?_) (ihl lower)
      rw [ptrOf_node, find_node_eq real held, if_neg less.ne', if_pos less]
    · rw [subtree_here same.symm]
      refine Computes.of_step (fun fuel => ?_) (Computes.pure _)
      rw [ptrOf_node, find_node_eq real held, if_pos same.symm]
    · rw [subtree_right greater]
      refine Computes.of_step (fun fuel => ?_) (ihr upper)
      rw [ptrOf_node, find_node_eq real held, if_neg greater.ne, if_neg greater.not_gt]

end Find

/-- The memory holds a search tree whose nodes know their parents. -/
structure IsSearchTree (tree : BstTree) (t : ItemTree) : Prop where
  holds : Holds tree.heap tree.root t
  ordered : Ordered Item.key t
  parents : ParentsHold tree.heap 0 t

namespace IsSearchTree

variable {tree : BstTree}

theorem ordered_putItem (ordered : Ordered Item.key t) : Ordered Item.key (putItem malloc key value t) :=
  ordered.put (fun _ => rfl) rfl

theorem bst_tree_insert_computes (search : IsSearchTree tree t) (fresh : Fresh tree.heap malloc)
    (key : ℤ) (value : UInt8) :
    ∃ x tree', Computes (fun fuel => bst_tree_insert malloc fuel tree key value) (x, tree') ∧
      IsSearchTree tree' (putItem malloc key value t) ∧
      ∃ item, find Item.key key (putItem malloc key value t) = some item ∧ item.ptr = x := by
  obtain ⟨⟨root, linked, nodup⟩, ordered, parents⟩ := search
  have outside : malloc ∉ ptrs t := fun member => fresh.ne_of_mem linked member rfl
  by_cases empty : t = .nil
  · subst empty
    have null : tree.root = 0 := root
    have new : create_node tree.heap malloc key value 0 0 0 malloc = some ⟨key, value, 0, 0, 0⟩ :=
      Function.update_self ..
    refine ⟨malloc, ⟨malloc, create_node tree.heap malloc key value 0 0 0⟩, ?_, ?_,
      ⟨malloc, key, value⟩, find_here rfl, rfl⟩
    · unfold bst_tree_insert
      simp only [if_pos null]
      exact Computes.pure _
    · refine ⟨⟨rfl, ⟨fresh.real, ⟨0, new⟩, trivial, trivial⟩, nodup_putItem outside nodup⟩,
        ordered_putItem ordered, ?_, trivial, trivial⟩
      exact congrArg (Option.map TreeNode.p) new
  · obtain ⟨x, M', computes, stores⟩ := insert_node_computes key value fresh linked nodup parents empty
    have inner : tree.root ≠ 0 := root ▸ linked.ptrOf_eq_zero_iff.not.mpr empty
    refine ⟨x, { tree with heap := M' }, ?_, ?_, stores.found⟩
    · unfold bst_tree_insert
      rw [← root] at computes
      simp only [if_neg inner]
      exact Computes.bind (g := fun _ result => some (result.1, { tree with heap := result.2 }))
        computes (Computes.pure _)
    · refine ⟨⟨?_, stores.linked, nodup_putItem outside nodup⟩, ordered_putItem ordered, stores.parents⟩
      exact root.trans (ptrOf_putItem malloc key value empty).symm

theorem bst_find_node_computes (search : IsSearchTree tree t) (key : ℤ) :
    Computes (fun fuel => bst_find_node fuel tree key) (ptrOf (subtree Item.key key t)) := by
  obtain ⟨⟨root, linked, -⟩, -, -⟩ := search
  have found := find_node_computes linked key
  rw [← root] at found
  unfold bst_find_node
  by_cases null : tree.root = 0
  · obtain rfl := linked.ptrOf_eq_zero_iff.mp (root.symm.trans null)
    simp only [if_pos null]
    exact Computes.pure _
  · simp only [if_neg null]
    exact found

end IsSearchTree

end LinuxZero.Bst
