import LinuxZero.Bst.Layout

/-! # What a deletion does

`delete_node` goes down to the node of the key. When the node has a right child, the deletion goes on with the
key of that child and keeps nothing else; otherwise it goes on with the left child, where the key is not. The
nodes that it has passed on its way to a null pointer are linked anew or released, and none of them gets
another parent.
-/

namespace LinuxZero.Bst

open OrderedTree

/-- The tree that is left. -/
def deleted (key : ℤ) : ItemTree → ItemTree
  | .nil => .nil
  | .node item left right =>
    if item.key = key then
      match root? right with
      | none => deleted key left
      | some child => deleted child.key right
    else if key < item.key then .node item (deleted key left) right
    else .node item left (deleted key right)

/-- The deletion has left `M'`: the tree with the nodes that are kept, without the one that was found. -/
structure Deletes (M : Heap) (key : ℤ) (t : ItemTree) (M' : Heap) : Prop where
  linked : Linked M' (deleted key t)
  released : ∀ item, find Item.key key t = some item → M' item.ptr = none
  parents : ∀ x, M' x ≠ none → (M' x).map TreeNode.p = (M x).map TreeNode.p
  outside : ∀ x ∉ ptrs t, M' x = M x

variable {M M' : Heap} {key : ℤ} {t left right : ItemTree} {item child : Item} {x p : ℕ}

section Shape

theorem deleted_here_none (here : item.key = key) : deleted key (.node item left .nil) =
    deleted key left := if_pos here

theorem deleted_here_some (here : item.key = key) (root : root? right = some child) :
    deleted key (.node item left right) = deleted child.key right := by
  rw [deleted, if_pos here, root]

theorem deleted_left (less : key < item.key) : deleted key (.node item left right) =
    .node item (deleted key left) right := by
  rw [deleted, if_neg less.ne', if_pos less]

theorem deleted_right (greater : item.key < key) : deleted key (.node item left right) =
    .node item left (deleted key right) := by
  rw [deleted, if_neg greater.ne, if_neg greater.not_gt]

/-- Nothing is added, and the order is kept. -/
theorem deleted_sublist (key : ℤ) (t : ItemTree) : (inorder (deleted key t)).Sublist (inorder t) := by
  induction t generalizing key with
  | nil => exact List.Sublist.refl _
  | node item left right ihl ihr =>
    rcases lt_trichotomy key item.key with less | same | greater
    · rw [deleted_left less]
      exact (ihl key).append_right _
    · cases root : root? right with
      | none =>
        obtain rfl := root?_eq_none_iff.mp root
        rw [deleted_here_none same.symm]
        exact (ihl key).trans (List.sublist_append_left ..)
      | some child =>
        rw [deleted_here_some same.symm root]
        exact (ihr child.key).trans ((List.sublist_cons_self ..).trans (List.sublist_append_right ..))
    · rw [deleted_right greater]
      exact ((ihr key).cons_cons item).append_left _

theorem ptrs_deleted_sublist (key : ℤ) (t : ItemTree) : (ptrs (deleted key t)).Sublist (ptrs t) :=
  (deleted_sublist key t).map _

end Shape

section Memory

theorem modify_self (f : TreeNode → TreeNode) : M.modify x f x = (M x).map f := Function.update_self ..

theorem modify_of_ne {y : ℕ} (f : TreeNode → TreeNode) (differ : y ≠ x) : M.modify x f y = M y :=
  Function.update_of_ne differ ..

/-- The node that had the key is released after the deletion below it. -/
theorem Deletes.release {below : ItemTree} {key' : ℤ} (deletes : Deletes M key' below M')
    (here : item.key = key) (shape : deleted key (.node item left right) = deleted key' below)
    (notBelow : item.ptr ∉ ptrs below) (part : ∀ x ∈ ptrs below, x ∈ ptrs (.node item left right)) :
    Deletes M key (.node item left right) (Function.update M' item.ptr none) where
  linked := by
    rw [shape]
    refine linked_congr (fun x member => Function.update_of_ne ?_ ..) deletes.linked
    exact fun same => notBelow (same ▸ (ptrs_deleted_sublist key' below).subset member)
  released := fun found same => by
    rw [find_here here] at same
    obtain rfl := Option.some.inj same
    exact Function.update_self ..
  parents := fun x alive => by
    have differ : x ≠ item.ptr := fun same => alive (same ▸ Function.update_self ..)
    rw [Function.update_of_ne differ] at alive ⊢
    exact deletes.parents x alive
  outside := fun x outside => by
    have differ : x ≠ item.ptr := fun same => outside (same ▸ mem_ptrs_root)
    rw [Function.update_of_ne differ]
    exact deletes.outside x fun member => outside (part x member)

/-- What a deletion in a child and the new link to it do. -/
theorem Deletes.relink {below : ItemTree} {n : TreeNode} (deletes : Deletes M key below M')
    (held : M item.ptr = some n) (notBelow : item.ptr ∉ ptrs below) (f : TreeNode → TreeNode)
    (same : (f n).p = n.p) :
    Linked (M'.modify item.ptr f) (deleted key below) ∧ M'.modify item.ptr f item.ptr = some (f n) ∧
      (∀ found, find Item.key key below = some found → M'.modify item.ptr f found.ptr = none) ∧
      (∀ x, M'.modify item.ptr f x ≠ none → (M'.modify item.ptr f x).map TreeNode.p =
      (M x).map TreeNode.p) ∧
      ∀ x, x ≠ item.ptr → x ∉ ptrs below → M'.modify item.ptr f x = M x := by
  have root : M'.modify item.ptr f item.ptr = some (f n) := by
    rw [modify_self, deletes.outside _ notBelow, held, Option.map_some]
  refine ⟨?_, root, fun found is => ?_, fun x alive => ?_, fun x differ outside => ?_⟩
  · refine linked_congr (fun x member => modify_of_ne f ?_) deletes.linked
    exact fun same => notBelow (same ▸ (ptrs_deleted_sublist key below).subset member)
  · have inside : found.ptr ∈ ptrs below := List.mem_map_of_mem (mem_of_find is)
    have differ : found.ptr ≠ item.ptr := fun same => notBelow (same ▸ inside)
    rw [modify_of_ne f differ]
    exact deletes.released found is
  · by_cases equal : x = item.ptr
    · rw [equal, root, held, Option.map_some, Option.map_some, same]
    · rw [modify_of_ne f equal] at alive ⊢
      exact deletes.parents x alive
  · rw [modify_of_ne f differ, deletes.outside x outside]

theorem release_node_eq {n : TreeNode} (real : x ≠ 0) (held : M x = some n) : release_node M x =
    some (Function.update M x none) := by
  rw [release_node, if_pos real, held, Option.map_some]

/-- The node of the key, when the deletion below it has returned. -/
theorem delete_node_computes_here {n : TreeNode} {below : ItemTree} {key' : ℤ} (real : item.ptr ≠ 0)
    (held : M item.ptr = some n) (here : n.key = key) (deletes : Deletes M key' below M')
    (notBelow : item.ptr ∉ ptrs below)
    (goesOn : ∀ fuel, (if n.r = 0 then delete_node fuel M n.l key
      else (M n.r).bind fun right => delete_node fuel M n.r right.key) =
        delete_node fuel M (ptrOf below) key')
    (computes : Computes (fun fuel => delete_node fuel M (ptrOf below) key')
      (ptrOf (deleted key' below), M')) :
    Computes (fun fuel => delete_node fuel M item.ptr key)
      (ptrOf (deleted key' below), Function.update M' item.ptr none) := by
  have kept : M' item.ptr = some n := (deletes.outside _ notBelow).trans held
  refine Computes.of_succ (Computes.of_step (fun fuel => delete_node_here real held here) ?_)
  simp only [goesOn]
  refine Computes.bind (g := fun _ result => (release_node result.2 item.ptr).map fun M =>
    (result.1, M)) computes.succ ?_
  rw [release_node_eq real kept]
  exact Computes.pure _

theorem delete_node_computes (linked : Linked M t) (nodup : (ptrs t).Nodup) (key : ℤ) :
    ∃ M', Computes (fun fuel => delete_node fuel M (ptrOf t) key) (ptrOf (deleted key t), M') ∧
    Deletes M key t M' := by
  induction t generalizing key with
  | nil => exact ⟨M, Computes.of_step (fun _ => delete_node_null) (Computes.pure _), trivial, nofun,
      fun _ _ => rfl, fun _ _ => rfl⟩
  | node item left right ihl ihr =>
    obtain ⟨⟨lowerNodup, notLeft⟩, ⟨upperNodup, notRight⟩, disjoint⟩ := nodup_ptrs_node.mp nodup
    obtain ⟨real, ⟨p, held⟩, lower, upper⟩ := linked
    have inLeft : ∀ x ∈ ptrs left, x ∈ ptrs (.node item left right) := fun x member =>
      mem_ptrs_node.mpr (Or.inl member)
    have inRight : ∀ x ∈ ptrs right, x ∈ ptrs (.node item left right) := fun x member =>
      mem_ptrs_node.mpr (Or.inr (Or.inr member))
    rcases lt_trichotomy key item.key with less | same | greater
    · obtain ⟨M₁, computes, deletes⟩ := ihl lower lowerNodup key
      obtain ⟨linked', root, released, parents, others⟩ :=
        deletes.relink held notLeft (fun n => { n with l := ptrOf (deleted key left) }) rfl
      rw [deleted_left less]
      refine ⟨_, Computes.of_step (fun fuel => delete_node_left real held less) computes.map, ?_,
        ?_, parents, ?_⟩
      · rw [deleted_left less]
        refine ⟨real, ⟨p, root⟩, linked', linked_congr (fun x member => ?_) upper⟩
        exact others x (fun same => notRight (same ▸ member)) fun inside => disjoint x inside member
      · rwa [find_left less]
      · intro x outside
        rw [mem_ptrs_node, not_or, not_or] at outside
        exact others x outside.2.1 outside.1
    · cases root : root? right with
      | none =>
        obtain rfl := root?_eq_none_iff.mp root
        obtain ⟨M₁, computes, deletes⟩ := ihl lower lowerNodup key
        rw [deleted_here_none same.symm]
        exact ⟨_, delete_node_computes_here real held same.symm deletes notLeft
          (fun _ => if_pos rfl) computes,
          deletes.release same.symm (deleted_here_none same.symm) notLeft inLeft⟩
      | some child =>
        obtain ⟨M₁, computes, deletes⟩ := ihr upper upperNodup child.key
        obtain ⟨childReal, n, childHeld, childKey, -⟩ := upper.held (root?_mem root)
        have address : ptrOf right = child.ptr := by rw [ptrOf, root]; rfl
        rw [deleted_here_some same.symm root]
        refine ⟨_, delete_node_computes_here real held same.symm deletes notRight
          (fun fuel => ?_) computes, deletes.release same.symm (deleted_here_some same.symm root)
          notRight inRight⟩
        rw [if_neg (by rw [address]; exact childReal), address, childHeld, Option.bind_some, childKey]
    · obtain ⟨M₁, computes, deletes⟩ := ihr upper upperNodup key
      obtain ⟨linked', root, released, parents, others⟩ :=
        deletes.relink held notRight (fun n => { n with r := ptrOf (deleted key right) }) rfl
      rw [deleted_right greater]
      refine ⟨_, Computes.of_step (fun fuel => delete_node_right real held greater) computes.map,
        ?_, ?_, parents, ?_⟩
      · rw [deleted_right greater]
        refine ⟨real, ⟨p, root⟩, linked_congr (fun x member => ?_) lower, linked'⟩
        exact others x (fun same => notLeft (same ▸ member)) (disjoint x member)
      · rwa [find_right greater]
      · intro x outside
        rw [mem_ptrs_node, not_or, not_or] at outside
        exact others x outside.2.1 outside.2.2

end Memory

end LinuxZero.Bst
