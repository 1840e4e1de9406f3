import LinuxZero.Lib.Run
import LinuxZero.Trees.Delete
import LinuxZero.Trees.Shape

/-! # Runs of insertions and deletions

A program that uses the tree inserts nodes that are not in it, with any content, and deletes nodes of it. Each
operation returns, and the memory holds a search tree after it; so the rules of a red-black tree hold after
every run.
-/

namespace LinuxZero.Trees

open RedBlack ColorTree

inductive TreeEvent
  | insert (z : ℕ) (fields : RbtreeNode)
  | delete (z : ℕ)

/-- The fields of a node that is not in the tree are set, as a program does that has allocated it. -/
def Rbtree.allocate (T : Rbtree) (z : ℕ) (fields : RbtreeNode) : Rbtree := T.modify z fun _ => fields

structure Fresh (T : Rbtree) (z : ℕ) : Prop where
  real : z ≠ T.nil
  outside : ¬ InTree T z

/-- An operation returns, and leaves this tree. -/
inductive TreeStep (T : Rbtree) : TreeEvent → Rbtree → Prop
  | insert {z : ℕ} {fields : RbtreeNode} {T' : Rbtree} (fresh : Fresh T z)
      (returns : Computes (fun fuel => rbtree_insert (T.allocate z fields) fuel z) T') :
      TreeStep T (.insert z fields) T'
  | delete {y z : ℕ} {T' : Rbtree} (inTree : InTree T z)
      (returns : Computes (fun fuel => rbtree_delete T fuel z) (y, T')) :
      TreeStep T (.delete z) T'

/-- There are no nodes yet, and `nil` is black. -/
structure IsEmpty (T : Rbtree) : Prop where
  root : T.root = T.nil
  nil : (T.node T.nil).color = BLACK

variable {T T' : Rbtree} {t : ColorTree Item} {y z : ℕ} {fields : RbtreeNode}

theorem IsEmpty.searchTree (empty : IsEmpty T) : SearchTree T .leaf :=
  ⟨⟨⟨empty.root, trivial, trivial, List.nodup_nil, List.not_mem_nil, empty.nil⟩, 0, trivial, rfl,
    fun _ => rfl, fun _ => rfl⟩, List.Pairwise.nil⟩

theorem SearchTree.allocate (tree : SearchTree T t) (fresh : Fresh T z) (fields : RbtreeNode) :
    SearchTree (T.allocate z fields) t := by
  have outside : z ∉ treePtrs t := fun member => fresh.outside (tree.inTree_iff.mpr member)
  obtain ⟨⟨⟨root, _, inner, nodup, nonnil, black⟩, fits⟩, sorted⟩ := tree
  refine ⟨⟨⟨root, trivial, inner.modify outside, nodup, nonnil, ?_⟩, fits⟩, sorted⟩
  rw [Rbtree.allocate, nil_modify, node_modify_of_ne fresh.real.symm, black]

theorem SearchTree.mem_keys_iff (tree : SearchTree T t) {key : ℤ} : key ∈ keys T ↔
    ∃ kv ∈ content t, kv.1 = key := by
  rw [tree.keys_eq, Finset.mem_coe, List.mem_toFinset, List.mem_map]

/-- What an insertion leaves. -/
structure Inserted (T : Rbtree) (t : ColorTree Item) (z : ℕ) (fields : RbtreeNode) (T' : Rbtree)
    (t' : ColorTree Item) : Prop where
  nil : T'.nil = T.nil
  tree : SearchTree T' t'
  present : fields.key ∈ keys T → T' = T.allocate z fields ∧ t' = t
  absent : fields.key ∉ keys T → (content t').Perm ((fields.key, fields.value) :: content t)

theorem SearchTree.insert (tree : SearchTree T t) (fresh : Fresh T z) (fields : RbtreeNode) :
    ∃ T' t', Computes (fun fuel => rbtree_insert (T.allocate z fields) fuel z) T' ∧
    Inserted T t z fields T' t' := by
  have outside : z ∉ treePtrs t := fun member => fresh.outside (tree.inTree_iff.mpr member)
  have node_z : (T.allocate z fields).node z = fields := node_modify_self
  obtain ⟨T', t', computes, nil, tree', outcome⟩ :=
    rbtree_insert_computes (tree.allocate fresh fields) outside fresh.real
  rw [node_z] at outcome
  refine ⟨T', t', computes, nil, tree', fun present => ?_, fun absent => ?_⟩
  · rcases outcome with ⟨_, unchanged⟩ | ⟨absent, _⟩
    · exact unchanged
    · obtain ⟨kv, member, equal⟩ := tree.mem_keys_iff.mp present
      exact absurd equal (absent kv member)
  · rcases outcome with ⟨present, _⟩ | ⟨_, added, _⟩
    · exact absurd (tree.mem_keys_iff.mpr present) absent
    · exact added

/-- There is a node after an insertion. -/
theorem Inserted.nonempty {t' : ColorTree Item} (inserted : Inserted T t z fields T' t')
    (tree : SearchTree T t) : t' ≠ .leaf := by
  intro empty
  by_cases present : fields.key ∈ keys T
  · obtain ⟨kv, member, _⟩ := tree.mem_keys_iff.mp present
    rw [← (inserted.present present).2, empty] at member
    exact List.not_mem_nil member
  · have added := inserted.absent present
    rw [empty] at added
    exact List.cons_ne_nil _ _ added.symm.eq_nil

theorem SearchTree.delete (tree : SearchTree T t) (inTree : InTree T z) :
    ∃ y T' t', Computes (fun fuel => rbtree_delete T fuel z) (y, T') ∧
      Removed T t ⟨z, (T.node z).key, (T.node z).value⟩ y T' t' := by
  obtain ⟨item, member, rfl⟩ := List.mem_map.mp (tree.inTree_iff.mp inTree)
  obtain ⟨key, value⟩ := tree.holds.tree.content_of_mem member
  rw [key, value]
  exact rbtree_delete_computes tree member

/-- The node that has been taken out was in the tree, and cannot be reached any more. -/
theorem Removed.unreachable {item : Item} {t' : ColorTree Item} (removed : Removed T t item y T' t')
    (tree : SearchTree T t) :
    InTree T y ∧ ¬ InTree T' y := by
  rw [tree.inTree_iff, removed.tree.inTree_iff]
  have nodup := removed.ptrs.nodup_iff.mp tree.holds.nodup
  exact ⟨removed.ptrs.mem_iff.mpr List.mem_cons_self, (List.nodup_cons.mp nodup).1⟩

/-- The memory holds a search tree, and an empty one has left its mark on `nil` unless nothing has happened. -/
structure Reached (events : List TreeEvent) (T : Rbtree) (t : ColorTree Item) : Prop where
  tree : SearchTree T t
  last : events ≠ [] → t = .leaf → (T.node T.nil).parent = T.nil

theorem Reached.step {events : List TreeEvent} {event : TreeEvent} (reached : ∃ t, Reached events T t)
    (step : TreeStep T event T') : ∃ t', Reached (events ++ [event]) T' t' := by
  obtain ⟨t, tree, _⟩ := reached
  cases step with
  | @insert z fields _ fresh returns =>
    obtain ⟨T₁, t', computes, inserted⟩ := tree.insert fresh fields
    rw [computes.unique returns] at inserted
    exact ⟨t', inserted.tree, fun _ empty => absurd empty (inserted.nonempty tree)⟩
  | @delete y z _ inTree returns =>
    obtain ⟨y₁, T₁, t', computes, removed⟩ := tree.delete inTree
    obtain ⟨rfl, rfl⟩ := Prod.mk.inj (computes.unique returns)
    exact ⟨t', removed.tree, fun _ => removed.last⟩

theorem Reached.of_run {events : List TreeEvent} {start : Rbtree} (empty : IsEmpty start)
    (run : Run TreeStep start events T) :
    ∃ t, Reached events T t :=
  run.history (fun events T => ∃ t, Reached events T t)
    (fun _ _ _ _ reached step => Reached.step reached step)
    ⟨.leaf, empty.searchTree, fun something => absurd rfl something⟩

/-- After every run the tree is a red-black tree, and the next operation returns. -/
theorem rbtree_stays_redBlack {events : List TreeEvent} {start : Rbtree} (empty : IsEmpty start)
    (run : Run TreeStep start events T) :
    IsRedBlack T ∧ (events ≠ [] → (T.node T.root).parent = T.nil) ∧
      (∀ z fields, Fresh T z → ∃ T', TreeStep T (.insert z fields) T') ∧
      ∀ z, InTree T z → ∃ T', TreeStep T (.delete z) T' := by
  obtain ⟨t, tree, last⟩ := Reached.of_run empty run
  refine ⟨tree.isRedBlack, fun something => ?_, fun z fields fresh => ?_, fun z inTree => ?_⟩
  · by_cases null : T.root = T.nil
    · have leaf := tree.holds.root.symm.trans null
      rw [null]
      exact last something ((ptrOf_eq_nil_iff tree.holds.nonnil_tree).mp leaf)
    · exact tree.isRedBlack.root_parent null
  · obtain ⟨T', _, computes, _⟩ := tree.insert fresh fields
    exact ⟨T', .insert fresh computes⟩
  · obtain ⟨_, T', _, computes, _⟩ := tree.delete inTree
    exact ⟨T', .delete inTree computes⟩

section SmallTree

/-- `nil` is node 0, and its pointers lead anywhere. -/
def noNodes : Rbtree := ⟨0, 0, fun _ => ⟨BLACK, 7, 7, 7, 0, 0⟩⟩

def entry (key : ℤ) (value : ℕ) : RbtreeNode := ⟨0, 0, 0, 0, key, value⟩

def oneNode : Rbtree := (rbtree_insert (noNodes.allocate 1 (entry 5 50)) 2 1).getD noNodes

def twoNodes : Rbtree := (rbtree_insert (oneNode.allocate 2 (entry 3 30)) 3 2).getD noNodes

theorem noNodes_empty : IsEmpty noNodes := ⟨rfl, rfl⟩

theorem noNodes_fresh : Fresh noNodes 1 :=
  ⟨by decide, fun ⟨_, _, down⟩ => absurd (down_nil.mp down).2 (by decide)⟩

theorem oneNode_computes :
    Computes (fun fuel => rbtree_insert (noNodes.allocate 1 (entry 5 50)) fuel 1) oneNode :=
  Computes.bind (Computes.of_returns ⟨1, rfl⟩) (Computes.map (Computes.of_returns ⟨1, rfl⟩))

theorem oneNode_fresh : Fresh oneNode 2 := by
  refine ⟨by decide, fun ⟨_, nodes, down⟩ => ?_⟩
  cases down with
  | step side _ below => cases side <;> exact absurd (down_nil.mp below).2 (by decide)

theorem twoNodes_computes :
    Computes (fun fuel => rbtree_insert (oneNode.allocate 2 (entry 3 30)) fuel 2) twoNodes :=
  Computes.bind (Computes.of_returns ⟨2, rfl⟩) (Computes.map (Computes.of_returns ⟨1, rfl⟩))

theorem twoNodes_root : InTree twoNodes 1 := ⟨by decide, [], .here 1⟩

/-- Two insertions and a deletion. -/
theorem smallTree_redBlack :
    ∃ T, Run TreeStep noNodes [.insert 1 (entry 5 50), .insert 2 (entry 3 30), .delete 1] T ∧
    IsRedBlack T := by
  have run : Run TreeStep noNodes [.insert 1 (entry 5 50), .insert 2 (entry 3 30)] twoNodes :=
    (Run.start.next (.insert noNodes_fresh oneNode_computes)).next
      (.insert oneNode_fresh twoNodes_computes)
  obtain ⟨T, last⟩ := (rbtree_stays_redBlack noNodes_empty run).2.2.2 1 twoNodes_root
  exact ⟨T, run.next last, (rbtree_stays_redBlack noNodes_empty (run.next last)).1⟩

end SmallTree

end LinuxZero.Trees
