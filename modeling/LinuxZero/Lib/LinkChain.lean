import Mathlib.Logic.Function.Basic
import Mathlib.Data.List.Basic
import Mathlib.Order.Basic

/-! # Chains of links

A null-terminated list in a memory is a chain of cells: each cell holds the address of the next one,
the last cell holds null, and the first cell is part of no node. The nodes are known by the addresses
of their own cells, so that a header and a node are cells of the same kind and a pointer to the last
cell may point at either.
-/

namespace LinuxZero

/-- The nodes that the links from `cell` on lead through. -/
def Chain (next : ℕ → ℕ) : ℕ → List ℕ → Prop
  | cell, [] => next cell = 0
  | cell, p :: rest => next cell = p ∧ p ≠ 0 ∧ Chain next p rest

/-- The cell that ends the chain. -/
def lastCell : ℕ → List ℕ → ℕ
  | cell, [] => cell
  | _, p :: rest => lastCell p rest

@[simp] theorem lastCell_nil (cell : ℕ) : lastCell cell [] = cell := rfl

@[simp] theorem lastCell_cons (cell p : ℕ) (rest : List ℕ) : lastCell cell (p :: rest) =
    lastCell p rest := rfl

theorem lastCell_append (cell p : ℕ) (nodes : List ℕ) : lastCell cell (nodes ++ [p]) = p := by
  induction nodes generalizing cell with
  | nil => rfl
  | cons q rest ih => exact ih q

theorem lastCell_mem (cell : ℕ) (nodes : List ℕ) : lastCell cell nodes ∈ cell :: nodes := by
  induction nodes generalizing cell with
  | nil => exact List.mem_cons_self
  | cons q rest ih => exact List.mem_cons_of_mem cell (ih q)

namespace Chain

variable {next next' : ℕ → ℕ} {cell p : ℕ} {nodes : List ℕ}

theorem null_iff (chain : Chain next cell nodes) : next cell = 0 ↔ nodes = [] := by
  cases nodes with
  | nil => exact ⟨fun _ => rfl, fun _ => chain⟩
  | cons p rest =>
    obtain ⟨first, nonnull, _⟩ := chain
    simp [first, nonnull]

theorem nonnull (chain : Chain next cell nodes) (member : p ∈ nodes) : p ≠ 0 := by
  induction nodes generalizing cell with
  | nil => exact absurd member List.not_mem_nil
  | cons q rest ih =>
    rcases List.mem_cons.mp member with rfl | later
    · exact chain.2.1
    · exact ih chain.2.2 later

/-- A link that is not null leads to a node. -/
theorem next_mem (chain : Chain next cell nodes) (member : p ∈ cell :: nodes) (further : next p ≠ 0) :
    next p ∈ nodes := by
  induction nodes generalizing cell with
  | nil =>
    obtain rfl := List.mem_singleton.mp member
    exact absurd chain further
  | cons q rest ih =>
    rcases List.mem_cons.mp member with rfl | later
    · exact chain.1 ▸ List.mem_cons_self
    · exact List.mem_cons_of_mem q (ih chain.2.2 later)

/-- The links determine the nodes. -/
theorem unique {other : List ℕ} (chain : Chain next cell nodes) (chain' : Chain next cell other) :
    nodes = other := by
  induction nodes generalizing cell other with
  | nil => exact (chain'.null_iff.mp chain).symm
  | cons p rest ih =>
    cases other with
    | nil => exact absurd (chain.1.symm.trans chain') chain.2.1
    | cons q rest' =>
      obtain rfl : p = q := chain.1.symm.trans chain'.1
      rw [ih chain.2.2 chain'.2.2]

/-- Only the cells of the chain matter. -/
theorem congr (chain : Chain next cell nodes) (same : ∀ c ∈ cell :: nodes, next' c = next c) :
    Chain next' cell nodes := by
  induction nodes generalizing cell with
  | nil => exact (same cell List.mem_cons_self).trans chain
  | cons p rest ih =>
    refine ⟨(same cell List.mem_cons_self).trans chain.1, chain.2.1, ih chain.2.2 ?_⟩
    exact fun c member => same c (List.mem_cons_of_mem cell member)

/-- Another cell may start the chain. -/
theorem rebase {start : ℕ} (chain : Chain next cell nodes) (first : next' start = next cell)
    (same : ∀ c ∈ nodes, next' c = next c) : Chain next' start nodes := by
  cases nodes with
  | nil => exact first.trans chain
  | cons p rest => exact ⟨first.trans chain.1, chain.2.1, chain.2.2.congr same⟩

/-- Nodes that are given by their positions. -/
theorem of_range (next f : ℕ → ℕ) (n start : ℕ) (first : next start = if 0 < n then f 0 else 0)
    (links : ∀ i < n, next (f i) = if i + 1 < n then f (i + 1) else 0) (nonnull : ∀ i < n, f i ≠ 0) :
    Chain next start ((List.range n).map f) := by
  induction n generalizing f start with
  | zero => exact first
  | succ n ih =>
    rw [List.range_succ_eq_map, List.map_cons, List.map_map]
    refine ⟨first, nonnull 0 (by omega), ih _ _ ?_ ?_ ?_⟩
    · simpa using links 0 (by omega)
    · intro i bound
      simpa using links (i + 1) (by omega)
    · exact fun i bound => nonnull (i + 1) (by omega)

/-- A new node goes behind the last one. -/
theorem append (chain : Chain next cell nodes) (distinct : (cell :: nodes).Nodup)
    (fresh : p ∉ cell :: nodes) (nonnull : p ≠ 0) (linked : next' (lastCell cell nodes) = p)
    (ends : next' p = 0) (same : ∀ c ∈ cell :: nodes, c ≠ lastCell cell nodes → next' c = next c) :
    Chain next' cell (nodes ++ [p]) := by
  induction nodes generalizing cell with
  | nil => exact ⟨linked, nonnull, ends⟩
  | cons q rest ih =>
    have apart : cell ≠ lastCell q rest := by
      intro equal
      exact (List.nodup_cons.mp distinct).1 (equal ▸ lastCell_mem q rest)
    refine ⟨(same cell List.mem_cons_self apart).trans chain.1, chain.2.1, ?_⟩
    apply ih chain.2.2 (List.nodup_cons.mp distinct).2
      (fun member => fresh (List.mem_cons_of_mem cell member))
      linked
    exact fun c member => same c (List.mem_cons_of_mem cell member)

end Chain

/-- The nodes of the list that starts with `first`; the pointer to its first node is the cell at null. -/
def Linked (next : ℕ → ℕ) (first : ℕ) (nodes : List ℕ) : Prop :=
  Chain (Function.update next 0 first) 0 nodes

namespace Linked

variable {next next' : ℕ → ℕ} {first p : ℕ} {nodes : List ℕ}

theorem first_eq (linked : Linked next first nodes) : first = nodes.head?.getD 0 := by
  cases nodes with
  | nil => exact (Function.update_self ..).symm.trans linked
  | cons p rest => exact (Function.update_self ..).symm.trans linked.1

theorem null_iff (linked : Linked next first nodes) : first = 0 ↔ nodes = [] := by
  rw [← Chain.null_iff linked, Function.update_self]

theorem nonnull (linked : Linked next first nodes) (member : p ∈ nodes) : p ≠ 0 :=
  Chain.nonnull linked member

theorem unique {other : List ℕ} (linked : Linked next first nodes) (linked' : Linked next first other) :
    nodes = other := Chain.unique linked linked'

theorem first_mem (linked : Linked next first nodes) (nonempty : first ≠ 0) : first ∈ nodes := by
  have member := Chain.next_mem linked List.mem_cons_self (by rwa [Function.update_self])
  rwa [Function.update_self] at member

theorem next_mem (linked : Linked next first nodes) (member : p ∈ nodes) (further : next p ≠ 0) :
    next p ∈ nodes := by
  have nonnull := linked.nonnull member
  have later := Chain.next_mem linked (List.mem_cons_of_mem 0 member)
    (by rwa [Function.update_of_ne nonnull])
  rwa [Function.update_of_ne nonnull] at later

theorem tail (linked : Linked next first (p :: nodes)) : Linked next (next p) nodes := by
  refine Chain.rebase linked.2.2 ?_ ?_
  · rw [Function.update_self, Function.update_of_ne linked.2.1]
  · intro c member
    have nonnull := linked.nonnull (List.mem_cons_of_mem p member)
    rw [Function.update_of_ne nonnull, Function.update_of_ne nonnull]

theorem cons (linked : Linked next first nodes) (nonnull : p ≠ 0) (link : next p = first) :
    Linked next p (p :: nodes) := by
  refine ⟨Function.update_self .., nonnull, Chain.rebase linked ?_ ?_⟩
  · rw [Function.update_of_ne nonnull, Function.update_self, link]
  · intro c member
    have nonnull' := linked.nonnull member
    rw [Function.update_of_ne nonnull', Function.update_of_ne nonnull']

/-- Only the links of the nodes matter. -/
theorem congr (linked : Linked next first nodes) (same : ∀ p ∈ nodes, next' p = next p) :
    Linked next' first nodes := by
  refine Chain.rebase linked ?_ ?_
  · rw [Function.update_self, Function.update_self]
  · intro c member
    have nonnull := linked.nonnull member
    rw [Function.update_of_ne nonnull, Function.update_of_ne nonnull, same c member]

end Linked

/-- The links from `p` on lead through these nodes first; where the last link leads is left open. -/
def Leads (next : ℕ → ℕ) : ℕ → List ℕ → Prop
  | _, [] => True
  | p, q :: rest => p = q ∧ Leads next (next q) rest

namespace Leads

variable {next next' : ℕ → ℕ} {p : ℕ} {nodes : List ℕ}

theorem congr (leads : Leads next p nodes) (same : ∀ q ∈ nodes, next' q = next q) :
    Leads next' p nodes := by
  induction nodes generalizing p with
  | nil => trivial
  | cons q rest ih =>
    refine ⟨leads.1, ?_⟩
    rw [same q List.mem_cons_self]
    exact ih leads.2 fun r member => same r (List.mem_cons_of_mem q member)

/-- Nodes that are given by their positions. -/
theorem of_range (next f : ℕ → ℕ) (n : ℕ) (links : ∀ i < n, next (f i) = f (i + 1)) :
    Leads next (f 0) ((List.range n).map f) := by
  induction n generalizing f with
  | zero => trivial
  | succ n ih =>
    rw [List.range_succ_eq_map, List.map_cons, List.map_map]
    refine ⟨rfl, ?_⟩
    rw [links 0 (by omega)]
    exact ih (fun i => f (i + 1)) fun i bound => links (i + 1) (by omega)

end Leads

end LinuxZero
