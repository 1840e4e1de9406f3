import LinuxZero.Trees.Search
import LinuxZero.Trees.TreeRuns
import Mathlib.Data.Finmap
import Mathlib.Data.Finset.Sort

/-! # The tree as a finite map

What the tree is for: a map from keys to values, in which an insertion keeps the value of a key that is there
and a deletion takes a key out. The memory refines the map over every run; the traversal lists its keys in
order, and a search finds the value of a key.
-/

namespace LinuxZero.Trees

open RedBlack ColorTree

abbrev KeyMap := Finmap fun _ : ℤ => ℕ

/-- `delete` takes out the node that `rbtree_search` finds. -/
inductive MapEvent
  | insert (z : ℕ) (fields : RbtreeNode)
  | delete (key : ℤ)

/-- What an operation does to the map. -/
def KeyMap.next (m : KeyMap) : MapEvent → KeyMap
  | .insert _ fields => if fields.key ∈ m then m else m.insert fields.key fields.value
  | .delete key => m.erase key

/-- The map after the events. -/
def mapOf (events : List MapEvent) : KeyMap := events.foldl KeyMap.next ∅

/-- An operation of the program on the memory. -/
inductive MapStep (T : Rbtree) : MapEvent → Rbtree → Prop
  | insert {z : ℕ} {fields : RbtreeNode} {T' : Rbtree} (fresh : Fresh T z)
      (returns : Computes (fun fuel => rbtree_insert (T.allocate z fields) fuel z) T') :
      MapStep T (.insert z fields) T'
  | delete {key : ℤ} {y z : ℕ} {T' : Rbtree} (present : key ∈ keys T)
      (found : Computes (fun fuel => rbtree_search T fuel key) z)
      (returns : Computes (fun fuel => rbtree_delete T fuel z) (y, T')) : MapStep T (.delete key) T'

/-- A node of the tree has this key and this value. -/
def Has (T : Rbtree) (key : ℤ) (value : ℕ) : Prop :=
  ∃ p, InTree T p ∧ (T.node p).key = key ∧ (T.node p).value = value

/-- The deletion of a key: the node that is returned cannot be reached, and every other key has kept its value. -/
structure Deleted (T : Rbtree) (key : ℤ) (y : ℕ) (T' : Rbtree) : Prop where
  was : InTree T y
  unreachable : ¬ InTree T' y
  others : ∀ key' value, Has T' key' value ↔ key' ≠ key ∧ Has T key' value

/-- The memory is as the map says. -/
structure Refines (T : Rbtree) (m : KeyMap) : Prop where
  traversal : ∃ output, Computes (fun fuel => rbtree_traversal T fuel T.root) output ∧
    output.map Prod.fst = m.keys.sort
  found : ∀ key value, m.lookup key = some value →
    ∃ p, Computes (fun fuel => rbtree_search T fuel key) p ∧
      InTree T p ∧ (T.node p).key = key ∧ (T.node p).value = value
  missing : ∀ key, m.lookup key = none → Computes (fun fuel => rbtree_search T fuel key) T.nil
  existing : ∀ z fields, Fresh T z → fields.key ∈ m →
    Computes (fun fuel => rbtree_insert (T.allocate z fields) fuel z) (T.allocate z fields)
  insert : ∀ z fields, Fresh T z → ∃ T', MapStep T (.insert z fields) T'
  delete : ∀ key ∈ m, ∃ z y T', Computes (fun fuel => rbtree_search T fuel key) z ∧
    Computes (fun fuel => rbtree_delete T fuel z) (y, T') ∧ Deleted T key y T'

variable {T T' : Rbtree} {t t' : ColorTree Item} {m : KeyMap} {key : ℤ} {value y z : ℕ}
  {fields : RbtreeNode}

/-- The tree holds what the map does. -/
def Models (m : KeyMap) (t : ColorTree Item) : Prop :=
  ∀ key value, m.lookup key = some value ↔ (key, value) ∈ content t

section Models

theorem Models.mem_iff (models : Models m t) (tree : SearchTree T t) : key ∈ m ↔ key ∈ keys T := by
  rw [Finmap.mem_iff, tree.mem_keys_iff]
  constructor
  · rintro ⟨value, found⟩
    exact ⟨_, (models key value).mp found, rfl⟩
  · rintro ⟨⟨key, value⟩, member, rfl⟩
    exact ⟨value, (models key value).mpr member⟩

theorem Models.keys_eq (models : Models m t) (tree : SearchTree T t) :
    m.keys = ((content t).map Prod.fst).toFinset := by
  ext key
  rw [Finmap.mem_keys, models.mem_iff tree, tree.keys_eq, Finset.mem_coe]

/-- The keys of the tree are the sorted keys of the map. -/
theorem Models.sort_keys (models : Models m t) (tree : SearchTree T t) : (content t).map Prod.fst =
    m.keys.sort := by
  have sorted : ((content t).map Prod.fst).Pairwise (· ≤ ·) :=
    (List.pairwise_map.mpr tree.sorted).imp le_of_lt
  rw [models.keys_eq tree]
  exact ((List.toFinset_sort _ tree.sorted.nodup_keys).mpr sorted).symm

theorem Models.insert (models : Models m t) (tree : SearchTree T t)
    (inserted : Inserted T t z fields T' t') :
    Models (m.next (.insert z fields)) t' := by
  intro key value
  rw [KeyMap.next]
  split_ifs with present
  · rw [models.mem_iff tree] at present
    rw [(inserted.present present).2]
    exact models key value
  · rw [models.mem_iff tree] at present
    rw [(inserted.absent present).mem_iff, List.mem_cons, ← models]
    by_cases same : key = fields.key
    · subst same
      have absent : m.lookup fields.key = none := Finmap.lookup_eq_none.mpr
        ((models.mem_iff tree).not.mpr present)
      rw [Finmap.lookup_insert, absent, Option.some_inj, Prod.mk.injEq]
      exact ⟨fun equal => Or.inl ⟨rfl, equal.symm⟩, fun either => (either.resolve_right nofun).2.symm⟩
    · rw [Finmap.lookup_insert_of_ne _ same, Prod.mk.injEq]
      exact ⟨Or.inr, fun either => either.resolve_left fun equal => same equal.1⟩

/-- Exactly the key of the node goes. -/
theorem Removed.mem_content_iff {item : Item} (removed : Removed T t item y T' t')
    (tree : SearchTree T t) :
    (key, value) ∈ Trees.content t' ↔ key ≠ item.key ∧ (key, value) ∈ Trees.content t := by
  have nodup := ((removed.content.map Prod.fst).nodup_iff).mp tree.sorted.nodup_keys
  have gone := (List.nodup_cons.mp nodup).1
  rw [removed.content.mem_iff, List.mem_cons, Prod.mk.injEq]
  constructor
  · intro member
    have kept : key ∈ (Trees.content t').map Prod.fst := List.mem_map_of_mem member
    exact ⟨fun same => gone (same ▸ kept), Or.inr member⟩
  · rintro ⟨ne, ⟨same, _⟩ | member⟩
    · exact absurd same ne
    · exact member

theorem Models.delete {item : Item} (models : Models m t) (tree : SearchTree T t)
    (removed : Removed T t item y T' t') :
    Models (m.next (.delete item.key)) t' := by
  intro key value
  rw [removed.mem_content_iff tree, ← models, KeyMap.next]
  by_cases same : key = item.key
  · subst same
    rw [Finmap.lookup_erase]
    exact iff_of_false nofun fun both => both.1 rfl
  · rw [Finmap.lookup_erase_ne same]
    exact ⟨fun found => ⟨same, found⟩, And.right⟩

end Models

section Refinement

/-- Every operation on a search tree does what the map says. -/
theorem SearchTree.refines (tree : SearchTree T t) (models : Models m t) : Refines T m := by
  refine ⟨⟨t.inorder.map fun i => (i.key, (T.node i.ptr).color), ?_, ?_⟩, ?_, ?_, ?_, ?_, ?_⟩
  · rw [tree.holds.root]
    exact rbtree_traversal_computes [] tree.holds
  · rw [← models.sort_keys tree, content, List.map_map, List.map_map]
    rfl
  · intro key value found
    obtain ⟨p, inTree, rfl, held⟩ := tree.mem_content_iff.mp ((models key value).mp found)
    exact ⟨p, tree.search_found inTree, inTree, rfl, held⟩
  · intro key missing
    exact tree.search_missing ((models.mem_iff tree).not.mp (Finmap.lookup_eq_none.mp missing))
  · intro z fields fresh present
    obtain ⟨T', t', computes, inserted⟩ := tree.insert fresh fields
    rwa [(inserted.present ((models.mem_iff tree).mp present)).1] at computes
  · intro z fields fresh
    obtain ⟨T', _, computes, _⟩ := tree.insert fresh fields
    exact ⟨T', .insert fresh computes⟩
  · intro key present
    obtain ⟨p, inTree, rfl⟩ := (models.mem_iff tree).mp present
    obtain ⟨y, T', t', computes, removed⟩ := tree.delete inTree
    obtain ⟨was, unreachable⟩ := removed.unreachable tree
    refine ⟨p, y, T', tree.search_found inTree, computes, was, unreachable, fun key' value => ?_⟩
    rw [Has, Has, ← removed.tree.mem_content_iff, ← tree.mem_content_iff]
    exact removed.mem_content_iff tree

theorem MapStep.keeps {event : MapEvent} (tree : SearchTree T t) (models : Models m t)
    (step : MapStep T event T') :
    ∃ t', SearchTree T' t' ∧ Models (m.next event) t' := by
  cases step with
  | @insert z fields _ fresh returns =>
    obtain ⟨T₁, t', computes, inserted⟩ := tree.insert fresh fields
    rw [computes.unique returns] at inserted
    exact ⟨t', inserted.tree, models.insert tree inserted⟩
  | @delete key y z _ present found returns =>
    obtain ⟨p, inTree, rfl⟩ := present
    obtain rfl := (tree.search_found inTree).unique found
    obtain ⟨y₁, T₁, t', computes, removed⟩ := tree.delete inTree
    obtain ⟨rfl, rfl⟩ := Prod.mk.inj (computes.unique returns)
    exact ⟨t', removed.tree, models.delete tree removed⟩

theorem Models.of_run {events : List MapEvent} {start : Rbtree} (empty : IsEmpty start)
    (run : Run MapStep start events T) :
    ∃ t, SearchTree T t ∧ Models (mapOf events) t := by
  refine run.history (fun events T => ∃ t, SearchTree T t ∧ Models (mapOf events) t) ?_ ?_
  · rintro events T event T' ⟨t, tree, models⟩ step
    rw [mapOf, List.foldl_concat]
    exact step.keeps tree models
  · exact ⟨.leaf, empty.searchTree, fun key value => iff_of_false nofun List.not_mem_nil⟩

/-- After every run the memory refines the map that the operations have made. -/
theorem rbtree_refines_map {events : List MapEvent} {start : Rbtree} (empty : IsEmpty start)
    (run : Run MapStep start events T) : Refines T (mapOf events) := by
  obtain ⟨t, tree, models⟩ := Models.of_run empty run
  exact tree.refines models

/-- A key is inserted beside another one, which is then deleted. -/
theorem smallTree_refines : ∃ T,
    Run MapStep noNodes [.insert 1 (entry 5 50), .insert 2 (entry 3 30), .delete 5] T ∧
      Computes (fun fuel => rbtree_search T fuel 5) T.nil ∧
      ∃ p, Computes (fun fuel => rbtree_search T fuel 3) p ∧ InTree T p ∧ (T.node p).value = 30 := by
  have run : Run MapStep noNodes [.insert 1 (entry 5 50), .insert 2 (entry 3 30)] twoNodes :=
    (Run.start.next (.insert noNodes_fresh oneNode_computes)).next
      (.insert oneNode_fresh twoNodes_computes)
  obtain ⟨z, y, T, found, returns, _⟩ := (rbtree_refines_map noNodes_empty run).delete 5 (by decide)
  have whole := run.next (.delete ⟨1, twoNodes_root, rfl⟩ found returns)
  have refines := rbtree_refines_map noNodes_empty whole
  obtain ⟨p, found, inTree, _, value⟩ := refines.found 3 30 (by decide)
  exact ⟨T, whole, refines.missing 5 (by decide), p, found, inTree, value⟩

end Refinement

end LinuxZero.Trees
