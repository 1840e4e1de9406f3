import LinuxZero.Bst.Insertion
import LinuxZero.Lib.KeyHistory
import LinuxZero.Lib.Run

/-! # The tree as a dictionary

What the tree is for: insertions write values under keys, and a search gives the last value of its key. The
nodes are where `malloc` puts them, so that what two runs find is compared by value.
-/

namespace LinuxZero.Bst

open OrderedTree KeyHistory

/-- An insertion, with what `malloc` returns if it is called. -/
structure InsertEvent where
  malloc : ℕ
  key : ℤ
  value : UInt8

def InsertEvent.pair (event : InsertEvent) : ℤ × UInt8 := (event.key, event.value)

/-- The insertion returns, and leaves this tree. -/
inductive InsertStep (tree : BstTree) (event : InsertEvent) (tree' : BstTree) : Prop
  | insert {x : ℕ} (fresh : Fresh tree.heap event.malloc)
      (returns : Computes (fun fuel => bst_tree_insert event.malloc fuel tree event.key event.value)
        (x, tree'))

/-- The search gives null, or a node with the key and this value. -/
def Finds (tree : BstTree) (key : ℤ) : Option UInt8 → Prop
  | none => Computes (fun fuel => bst_find_node fuel tree key) 0
  | some value => ∃ x n, Computes (fun fuel => bst_find_node fuel tree key) x ∧ x ≠ 0 ∧
      tree.heap x = some n ∧
      n.key = key ∧ n.data = value

/-- The tree that the memory holds has the last value of every key. -/
structure Reached (events : List InsertEvent) (tree : BstTree) (t : ItemTree) : Prop where
  search : IsSearchTree tree t
  last : ∀ key, (find Item.key key t).map Item.data = lastValue (events.map InsertEvent.pair) key

variable {tree tree' : BstTree} {t : ItemTree} {events : List InsertEvent} {event : InsertEvent}
  {start : BstTree}

theorem Reached.empty (empty : tree.root = 0) : Reached [] tree .nil :=
  ⟨⟨⟨empty, trivial, List.nodup_nil⟩, List.Pairwise.nil, trivial⟩, fun _ => rfl⟩

theorem Reached.step (reached : ∃ t, Reached events tree t) (step : InsertStep tree event tree') :
    ∃ t', Reached (events ++ [event]) tree' t' := by
  obtain ⟨t, search, last⟩ := reached
  obtain ⟨fresh, returns⟩ := step
  obtain ⟨x, tree₁, computes, search', -⟩ := search.bst_tree_insert_computes fresh event.key event.value
  obtain ⟨rfl, rfl⟩ := Prod.mk.inj (computes.unique returns)
  refine ⟨_, search', fun key => ?_⟩
  rw [List.map_append, List.map_singleton]
  by_cases same : key = event.key
  · subst same
    rw [find_putItem, Option.map_some, InsertEvent.pair, lastValue_append_self]
    cases find Item.key event.key t <;> rfl
  · rw [InsertEvent.pair, lastValue_append_of_ne same, ← last key, find_putItem_of_ne same]

theorem Reached.of_run (empty : start.root = 0) (run : Run InsertStep start events tree) :
    ∃ t, Reached events tree t :=
  run.history (fun events tree => ∃ t, Reached events tree t)
    (fun _ _ _ _ reached step => Reached.step reached step)
    ⟨.nil, .empty empty⟩

theorem Reached.finds (reached : Reached events tree t) (key : ℤ) :
    Finds tree key (lastValue (events.map InsertEvent.pair) key) := by
  obtain ⟨search, last⟩ := reached
  have computes := search.bst_find_node_computes key
  rw [← last key]
  cases found : find Item.key key t with
  | none =>
    rw [root?_eq_none_iff.mp found] at computes
    exact computes
  | some item =>
    have address : ptrOf (subtree Item.key key t) = item.ptr := by rw [ptrOf, ← find, found]; rfl
    obtain ⟨real, n, held, key', data⟩ := search.holds.linked.held (mem_of_find found)
    exact ⟨item.ptr, n, address ▸ computes, real, held, key'.trans (key_of_find found), data⟩

section SmallTree

def noNodes : BstTree := ⟨0, fun _ => none⟩

def oneNode (key : ℤ) (value : UInt8) : BstTree := ⟨1, create_node noNodes.heap 1 key value 0 0 0⟩

/-- Node 2 is below node 1. -/
def twoNodes (key : ℤ) (value : UInt8) (key' : ℤ) (value' : UInt8) : BstTree :=
  ((bst_tree_insert 2 2 (oneNode key value) key' value').map Prod.snd).getD noNodes

theorem oneNode_run (key : ℤ) (value : UInt8) :
    Run InsertStep noNodes [⟨1, key, value⟩] (oneNode key value) :=
  Run.start.next (.insert ⟨Nat.one_ne_zero, rfl⟩ (Computes.pure (1, oneNode key value)))

theorem oneNode_fresh (key : ℤ) (value : UInt8) : Fresh (oneNode key value).heap 2 := ⟨by decide, rfl⟩

theorem lastRight_run : Run InsertStep noNodes [⟨1, 1, 10⟩, ⟨2, 2, 20⟩] (twoNodes 1 10 2 20) := by
  refine (oneNode_run 1 10).next (.insert (x := 2) (oneNode_fresh 1 10) ⟨1, fun fuel bound => ?_⟩)
  obtain ⟨fuel, rfl⟩ := Nat.exists_eq_add_of_le' bound
  rfl

theorem lastLeft_run : Run InsertStep noNodes [⟨1, 2, 20⟩, ⟨2, 1, 10⟩] (twoNodes 2 20 1 10) := by
  refine (oneNode_run 2 20).next (.insert (x := 2) (oneNode_fresh 2 20) ⟨1, fun fuel bound => ?_⟩)
  obtain ⟨fuel, rfl⟩ := Nat.exists_eq_add_of_le' bound
  rfl

end SmallTree

/-- After every run of insertions the tree is ordered, its nodes know their parents, a search gives the last value
of its key, an insertion returns the node of its key, and the order of insertions of different keys does not matter. -/
theorem bst_tree_dictionary (empty : start.root = 0) (run : Run InsertStep start events tree) :
    (∃ t, IsSearchTree tree t) ∧
    (∀ key, Finds tree key (lastValue (events.map InsertEvent.pair) key)) ∧
    (∀ key, (∀ event ∈ events, event.key ≠ key) → Computes (fun fuel => bst_find_node fuel tree key) 0) ∧
    (∀ malloc key value, Fresh tree.heap malloc → ∃ x tree' t' n,
      Computes (fun fuel => bst_tree_insert malloc fuel tree key value) (x, tree') ∧
      IsSearchTree tree' t' ∧
      x ∈ ptrs t' ∧ tree'.heap x = some n ∧ n.key = key ∧ n.data = value) ∧
    ∀ start' events' tree', start'.root = 0 → Run InsertStep start' events' tree' →
      SameForEachKey (events.map InsertEvent.pair) (events'.map InsertEvent.pair) →
      ∀ key, ∃ result, Finds tree key result ∧ Finds tree' key result := by
  obtain ⟨t, reached⟩ := Reached.of_run empty run
  refine ⟨⟨t, reached.search⟩, reached.finds, fun key never => ?_, fun malloc key value fresh => ?_, ?_⟩
  · have unwritten : key ∉ (events.map InsertEvent.pair).map Prod.fst := by
      rw [List.map_map, List.mem_map]
      rintro ⟨event, member, same⟩
      exact never event member same
    have finds := reached.finds key
    rwa [lastValue_eq_none_iff.mpr unwritten] at finds
  · obtain ⟨x, tree', computes, search, item, found, rfl⟩ :=
      reached.search.bst_tree_insert_computes fresh key value
    have member := mem_of_find found
    obtain ⟨-, n, held, key', data⟩ := search.holds.linked.held member
    refine ⟨item.ptr, tree', _, n, computes, search, List.mem_map_of_mem member, held,
      key'.trans (key_of_find found), data.trans ?_⟩
    rw [find_putItem, Option.some_inj] at found
    subst found
    cases find Item.key key t <;> rfl
  · intro start' events' tree' empty' run' same key
    obtain ⟨t', reached'⟩ := Reached.of_run empty' run'
    refine ⟨_, reached.finds key, ?_⟩
    rw [same.lastValue_eq key]
    exact reached'.finds key

/-- Both orders of two insertions give a tree that has 20 under key 2. -/
theorem twoOrders_find : Finds (twoNodes 1 10 2 20) 2 (some 20) ∧
    ∃ result, Finds (twoNodes 1 10 2 20) 2 result ∧
    Finds (twoNodes 2 20 1 10) 2 result := by
  have nodup : ([((1 : ℤ), (10 : UInt8)), (2, 20)].map Prod.fst).Nodup := by decide
  have swapped := sameForEachKey_of_perm [] [] nodup (List.Perm.swap ..)
  obtain ⟨-, finds, -, -, reordered⟩ := bst_tree_dictionary rfl lastRight_run
  exact ⟨finds 2, reordered noNodes _ _ rfl lastLeft_run swapped 2⟩

end LinuxZero.Bst
