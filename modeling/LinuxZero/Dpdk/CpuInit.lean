import LinuxZero.Lib.Destutter
import Mathlib.Data.List.Sort
import Mathlib.Data.Nat.Count

/-! # Detecting cores and their nodes

`eal_cpu_init` stores the node of every detected core under the number of the core in an array on the stack, and
then sorts and reads as many cells from the front as there are detected cores. A core that is missing below a
detected one leaves its cell with what has been on the stack, and moves the node of another core out of reach.
-/

namespace LinuxZero.Dpdk

abbrev RTE_MAX_LCORE : ℕ := 128

abbrev RTE_MAX_NUMA_NODES : ℕ := 8

structure LcoreConfig where
  detected : UInt32
  socket_id : UInt32
  core_id : UInt32
  core_index : ℕ

/-- `eal_config`; arrays are functions of the index. -/
structure EalConfig where
  numa_node_count : ℕ
  numa_nodes : ℕ → UInt32
  lcore_count : ℕ
  lcore_config : ℕ → LcoreConfig

/-- What is found under `/sys/devices/system`: which cores have a `core_id` file and what is read from it, and the
cores that are linked to each node. -/
structure Sysfs where
  present : ℕ → Bool
  core_id : ℕ → Option UInt32
  linked : ℕ → ℕ → Bool

namespace Sysfs

variable (m : Sysfs)

def eal_cpu_detected (lcore_id : ℕ) : UInt32 := if m.present lcore_id then 1 else 0

/-- The first node that the core is linked to, or zero. -/
def eal_cpu_socket_id (lcore_id : ℕ) : UInt32 :=
  UInt32.ofNat (((List.range RTE_MAX_NUMA_NODES).find? fun socket => m.linked socket lcore_id).getD 0)

def eal_cpu_core_id (lcore_id : ℕ) : UInt32 := (m.core_id lcore_id).getD 0

end Sysfs

def socket_id_cmp (a b : Int32) : ℤ := if a < b then -1 else if a > b then 1 else 0

/-- The configuration, and the array on the stack. -/
structure Scan where
  config : EalConfig
  lcore_to_socket_id : ℕ → Int32

/-- The lines for every core. -/
def visit_lcore (m : Sysfs) (s : Scan) (lcore_id : ℕ) : Scan :=
  { s with config := { s.config with
      lcore_config := Function.update s.config.lcore_config lcore_id { s.config.lcore_config lcore_id with
        socket_id := m.eal_cpu_socket_id lcore_id
        detected := m.eal_cpu_detected lcore_id } } }

/-- The lines for a detected core. -/
def count_lcore (m : Sysfs) (s : Scan) (lcore_id : ℕ) : Scan where
  config := { s.config with
    lcore_config := Function.update s.config.lcore_config lcore_id { s.config.lcore_config lcore_id with
      core_id := m.eal_cpu_core_id lcore_id
      core_index := s.config.lcore_count }
    lcore_count := s.config.lcore_count + 1 }
  lcore_to_socket_id := Function.update s.lcore_to_socket_id lcore_id
    (m.eal_cpu_socket_id lcore_id).toInt32

/-- One round of the first loop. -/
def scan_lcore (m : Sysfs) (s : Scan) (lcore_id : ℕ) : Scan :=
  if m.eal_cpu_detected lcore_id = 0 then visit_lcore m s lcore_id
  else count_lcore m (visit_lcore m s lcore_id) lcore_id

/-- There is no result behind the end of `numa_nodes`. -/
def EalConfig.add_node (c : EalConfig) (node : UInt32) : Option EalConfig :=
  if c.numa_node_count < RTE_MAX_NUMA_NODES then
    some { c with
      numa_nodes := Function.update c.numa_nodes c.numa_node_count node
      numa_node_count := c.numa_node_count + 1 }
  else none

/-- The last loop, from one cell on. -/
def collect_nodes (c : EalConfig) (prev_socket_id : UInt32) : List UInt32 → Option EalConfig
  | [] => some c
  | socket_id :: cells =>
    if socket_id ≠ prev_socket_id then (c.add_node socket_id).bind fun c =>
      collect_nodes c socket_id cells
    else collect_nodes c socket_id cells

/-- The cells behind the sorted part are not read any more. -/
def sorted_cells (count : ℕ) (cells : ℕ → Int32) : List Int32 :=
  ((List.range count).map cells).insertionSort fun a b => socket_id_cmp a b ≤ 0

/-- The returned value and the configuration; `raw` is what the array on the stack holds before, and `c` what
`_eal_config` holds. -/
def eal_cpu_init (m : Sysfs) (raw : ℕ → Int32) (c : EalConfig) : Option (ℤ × EalConfig) :=
  let s := (List.range RTE_MAX_LCORE).foldl (scan_lcore m) ⟨{ c with lcore_count := 0 }, raw⟩
  if s.config.lcore_count = 0 then some (-1, s.config)
  else
    (collect_nodes { s.config with numa_node_count := 0 } (-1)
      ((sorted_cells s.config.lcore_count s.lcore_to_socket_id).map Int32.toUInt32)).map fun c => (0, c)

/-- The nodes that have been listed. -/
def EalConfig.nodes (c : EalConfig) : List UInt32 := (List.range c.numa_node_count).map c.numa_nodes

/-- The configuration is the one of the machine. -/
structure Describes (m : Sysfs) (c : EalConfig) : Prop where
  sorted : c.nodes.Pairwise (· < ·)
  nodes : ∀ node, node ∈ c.nodes ↔ ∃ i < RTE_MAX_LCORE, m.present i = true ∧ m.eal_cpu_socket_id i = node
  bound : c.numa_node_count ≤ RTE_MAX_NUMA_NODES
  lcore_count : c.lcore_count = Nat.count (m.present · = true) RTE_MAX_LCORE
  core_index : ∀ i < RTE_MAX_LCORE, m.present i = true →
    (c.lcore_config i).core_index = Nat.count (m.present · = true) i

/-- If zero is returned the configuration is right. -/
def Meets (m : Sysfs) : Option (ℤ × EalConfig) → Prop
  | none => False
  | some (ret, c) => ret = 0 → Describes m c

/-- What the cells hold after the first loop. -/
def cell (m : Sysfs) (raw : ℕ → Int32) (i : ℕ) : Int32 :=
  if m.present i then (m.eal_cpu_socket_id i).toInt32 else raw i

/-- The cells that are read hold the nodes of the detected cores, and nothing else but -1. -/
def Harmless (m : Sysfs) (raw : ℕ → Int32) : Prop :=
  ∀ v : Int32, v ≠ -1 → ((∃ i < Nat.count (m.present · = true) RTE_MAX_LCORE, cell m raw i = v) ↔
    ∃ i < RTE_MAX_LCORE, m.present i = true ∧ (m.eal_cpu_socket_id i).toInt32 = v)

/-- No core is missing below a detected one. -/
def Contiguous (m : Sysfs) : Prop :=
  ∀ i j, i < j → j < RTE_MAX_LCORE → m.present j = true → m.present i = true

variable {m : Sysfs} {raw : ℕ → Int32} {c : EalConfig}

section Scan

variable {s : Scan} {i lcore_id : ℕ}

theorem lcore_config_visit_lcore (apart : i ≠ lcore_id) :
    (visit_lcore m s lcore_id).config.lcore_config i = s.config.lcore_config i :=
  Function.update_of_ne apart ..

theorem lcore_config_count_lcore (apart : i ≠ lcore_id) :
    (count_lcore m s lcore_id).config.lcore_config i = s.config.lcore_config i :=
  Function.update_of_ne apart ..

theorem core_index_count_lcore :
    ((count_lcore m s lcore_id).config.lcore_config lcore_id).core_index =
    s.config.lcore_count := by
  simp [count_lcore]

theorem cells_count_lcore : (count_lcore m s lcore_id).lcore_to_socket_id i =
    if i = lcore_id then (m.eal_cpu_socket_id lcore_id).toInt32 else s.lcore_to_socket_id i :=
  Function.update_apply ..

/-- What the first rounds have done. -/
structure Scanned (m : Sysfs) (raw : ℕ → Int32) (rounds : ℕ) (s : Scan) : Prop where
  count : s.config.lcore_count = Nat.count (m.present · = true) rounds
  cells : ∀ i, s.lcore_to_socket_id i = if i < rounds then cell m raw i else raw i
  index : ∀ i < rounds, m.present i = true → (s.config.lcore_config i).core_index = Nat.count
    (m.present · = true) i

theorem Scanned.next {rounds : ℕ} (scanned : Scanned m raw rounds s) :
    Scanned m raw (rounds + 1) (scan_lcore m s rounds) := by
  have count := scanned.count
  cases present : m.present rounds with
  | false =>
    have absent : m.eal_cpu_detected rounds = 0 := if_neg (by rw [present]; exact Bool.false_ne_true)
    rw [scan_lcore, if_pos absent]
    constructor
    case count =>
      rw [Nat.count_succ, present, if_neg Bool.false_ne_true]
      exact count
    case cells =>
      intro i
      refine (scanned.cells i).trans ?_
      rcases eq_or_ne i rounds with rfl | apart
      · rw [if_neg (lt_irrefl _), if_pos (Nat.lt_succ_self _), cell, present, if_neg Bool.false_ne_true]
      · simp only [show i < rounds + 1 ↔ i < rounds by omega]
    case index =>
      intro i bound isPresent
      have apart : i ≠ rounds := by
        rintro rfl
        exact Bool.false_ne_true (present.symm.trans isPresent)
      rw [lcore_config_visit_lcore apart]
      exact scanned.index i (by omega) isPresent
  | true =>
    have detected : m.eal_cpu_detected rounds ≠ 0 := by
      rw [Sysfs.eal_cpu_detected, if_pos present]
      decide
    rw [scan_lcore, if_neg detected]
    constructor
    case count =>
      rw [Nat.count_succ, present, if_pos rfl]
      exact congrArg (· + 1) count
    case cells =>
      intro i
      rw [cells_count_lcore]
      rcases eq_or_ne i rounds with rfl | apart
      · rw [if_pos rfl, if_pos (Nat.lt_succ_self _), cell, present, if_pos rfl]
      · rw [if_neg apart]
        refine (scanned.cells i).trans ?_
        simp only [show i < rounds + 1 ↔ i < rounds by omega]
    case index =>
      intro i bound isPresent
      rcases eq_or_ne i rounds with rfl | apart
      · rw [core_index_count_lcore]
        exact count
      · rw [lcore_config_count_lcore apart, lcore_config_visit_lcore apart]
        exact scanned.index i (by omega) isPresent

theorem scanned (m : Sysfs) (raw : ℕ → Int32) (c : EalConfig) (rounds : ℕ) :
    Scanned m raw rounds ((List.range rounds).foldl (scan_lcore m)
      ⟨{ c with lcore_count := 0 }, raw⟩) := by
  induction rounds with
  | zero => exact ⟨rfl, fun i => rfl, fun i bound => absurd bound (Nat.not_lt_zero i)⟩
  | succ rounds ih =>
    rw [List.range_succ, List.foldl_append]
    exact ih.next

end Scan

section Collect

variable {prev : UInt32} {cells : List UInt32}

theorem EalConfig.nodes_add_node (room : c.numa_node_count < RTE_MAX_NUMA_NODES) (node : UInt32) :
    ∃ d, c.add_node node = some d ∧ d.nodes = c.nodes ++ [node] ∧
    d.numa_node_count = c.numa_node_count + 1 ∧
      d.lcore_count = c.lcore_count ∧ d.lcore_config = c.lcore_config := by
  refine ⟨_, if_pos room, ?_, rfl, rfl, rfl⟩
  rw [EalConfig.nodes, EalConfig.nodes, List.range_succ, List.map_append, List.map_singleton]
  have earlier : ∀ i ∈ List.range c.numa_node_count,
      Function.update c.numa_nodes c.numa_node_count node i = c.numa_nodes i :=
    fun i member => Function.update_of_ne (Nat.ne_of_lt (List.mem_range.mp member)) ..
  exact congrArg₂ (· ++ [·]) (List.map_congr_left earlier) (Function.update_self ..)

/-- The nodes that are listed are the cells that differ from the one before, if there is room for them. -/
theorem collect_nodes_fits (room : c.numa_node_count + (changes prev cells).length ≤ RTE_MAX_NUMA_NODES) :
    ∃ d, collect_nodes c prev cells = some d ∧ d.nodes = c.nodes ++ changes prev cells ∧
      d.numa_node_count = c.numa_node_count + (changes prev cells).length ∧
      d.lcore_count = c.lcore_count ∧ d.lcore_config = c.lcore_config := by
  induction cells generalizing c prev with
  | nil => exact ⟨c, rfl, (List.append_nil _).symm, rfl, rfl, rfl⟩
  | cons node cells ih =>
    rw [changes_cons] at room ⊢
    rw [collect_nodes]
    by_cases differ : node ≠ prev
    · rw [if_pos differ.symm, List.length_cons] at room
      obtain ⟨d, added, nodes, count, lcores, config⟩ := c.nodes_add_node (by omega) node
      have fits : d.numa_node_count + (changes node cells).length ≤ RTE_MAX_NUMA_NODES := by
        rw [count]
        omega
      obtain ⟨e, collected, nodes', count', lcores', config'⟩ := ih fits
      rw [if_pos differ, if_pos differ.symm, added]
      refine ⟨e, collected, ?_, ?_, lcores'.trans lcores, config'.trans config⟩
      · rw [nodes', nodes, List.append_assoc, List.singleton_append]
      · rw [count', count, List.length_cons]
        omega
    · rw [not_not] at differ
      subst differ
      rw [if_neg (not_not.mpr rfl)] at room
      rw [if_neg (not_not.mpr rfl), if_neg (not_not.mpr rfl)]
      exact ih room

theorem collect_nodes_overflows (start : c.numa_node_count ≤ RTE_MAX_NUMA_NODES)
    (full : RTE_MAX_NUMA_NODES < c.numa_node_count + (changes prev cells).length) :
    collect_nodes c prev cells = none := by
  induction cells generalizing c prev with
  | nil => exact absurd full (not_lt.mpr start)
  | cons node cells ih =>
    rw [changes_cons] at full
    rw [collect_nodes]
    by_cases differ : node ≠ prev
    · rw [if_pos differ.symm, List.length_cons] at full
      rw [if_pos differ]
      by_cases room : c.numa_node_count < RTE_MAX_NUMA_NODES
      · obtain ⟨d, added, _, count, _⟩ := c.nodes_add_node room node
        rw [added]
        exact ih (by rw [count]; exact room) (by rw [count]; omega)
      · rw [EalConfig.add_node, if_neg room]
        rfl
    · rw [not_not] at differ
      subst differ
      rw [if_neg (not_not.mpr rfl)] at full
      rw [if_neg (not_not.mpr rfl)]
      exact ih start full

end Collect

section Nodes

/-- The number that a node is sorted by. -/
def sortKey (node : UInt32) : ℤ := node.toInt32.toInt

theorem sortKey_injective : Function.Injective sortKey :=
  fun _ _ same => congrArg Int32.toUInt32 (Int32.toInt_inj.mp same)

theorem sortKey_toUInt32 (a : Int32) : sortKey a.toUInt32 = a.toInt :=
  congrArg Int32.toInt a.toInt32_toUInt32

theorem socket_id_cmp_le_iff (a b : Int32) : socket_id_cmp a b ≤ 0 ↔ a.toInt ≤ b.toInt := by
  simp only [socket_id_cmp, gt_iff_lt, Int32.lt_iff_toInt_lt]
  split_ifs <;> omega

theorem sorted_cells_sorted (count : ℕ) (cells : ℕ → Int32) :
    ((sorted_cells count cells).map Int32.toUInt32).Pairwise fun a b => sortKey a ≤ sortKey b := by
  have total : Std.Total fun a b : Int32 => socket_id_cmp a b ≤ 0 := ⟨fun a b => by
    rw [socket_id_cmp_le_iff, socket_id_cmp_le_iff]
    exact le_total ..⟩
  have trans : IsTrans Int32 fun a b => socket_id_cmp a b ≤ 0 := ⟨fun a b c => by
    rw [socket_id_cmp_le_iff, socket_id_cmp_le_iff, socket_id_cmp_le_iff]
    exact le_trans⟩
  rw [List.pairwise_map]
  refine (List.pairwise_insertionSort (fun a b => socket_id_cmp a b ≤ 0) _).imp fun {a b} le => ?_
  rwa [sortKey_toUInt32, sortKey_toUInt32, ← socket_id_cmp_le_iff]

theorem mem_sorted_cells_iff {count : ℕ} {cells : ℕ → Int32} {node : UInt32} :
    node ∈ (sorted_cells count cells).map Int32.toUInt32 ↔ ∃ i < count, cells i = node.toInt32 := by
  rw [List.mem_map]
  constructor
  · rintro ⟨a, member, rfl⟩
    obtain ⟨i, inside, rfl⟩ := List.mem_map.mp ((List.mem_insertionSort _).mp member)
    exact ⟨i, List.mem_range.mp inside, (Int32.toInt32_toUInt32 _).symm⟩
  · rintro ⟨i, bound, same⟩
    refine ⟨cells i, (List.mem_insertionSort _).mpr
      (List.mem_map.mpr ⟨i, List.mem_range.mpr bound, rfl⟩), ?_⟩
    rw [same, UInt32.toUInt32_toInt32]

theorem eal_cpu_socket_id_lt (i : ℕ) : (m.eal_cpu_socket_id i).toNat < RTE_MAX_NUMA_NODES := by
  have found : ((List.range RTE_MAX_NUMA_NODES).find? fun socket => m.linked socket i).getD 0 <
    RTE_MAX_NUMA_NODES := by
    cases search : (List.range RTE_MAX_NUMA_NODES).find? fun socket => m.linked socket i with
    | none => exact (by decide : 0 < RTE_MAX_NUMA_NODES)
    | some socket => exact List.mem_range.mp (List.mem_of_find?_eq_some search)
  rw [Sysfs.eal_cpu_socket_id, UInt32.toNat_ofNat']
  exact (Nat.mod_le ..).trans_lt found

theorem sortKey_of_lt {node : UInt32} (bound : node.toNat < RTE_MAX_NUMA_NODES) : sortKey node =
    node.toNat := by
  have small : ∀ k < RTE_MAX_NUMA_NODES, sortKey (UInt32.ofNat k) = k := by decide
  have same := small _ bound
  rwa [UInt32.ofNat_toNat] at same

/-- The nodes of detected cores. -/
def IsNode (m : Sysfs) (node : UInt32) : Prop :=
  ∃ i < RTE_MAX_LCORE, m.present i = true ∧ m.eal_cpu_socket_id i = node

theorem IsNode.lt {node : UInt32} (isNode : IsNode m node) : node.toNat < RTE_MAX_NUMA_NODES := by
  obtain ⟨i, _, _, rfl⟩ := isNode
  exact eal_cpu_socket_id_lt i

theorem IsNode.ne {node : UInt32} (isNode : IsNode m node) : node ≠ -1 := by
  rintro rfl
  exact absurd isNode.lt (by decide)

/-- What is read in the last loop: sorted, and the cells of as many cores as are detected. -/
structure Reads (m : Sysfs) (raw : ℕ → Int32) (cells : List UInt32) : Prop where
  sorted : cells.Pairwise fun a b => sortKey a ≤ sortKey b
  mem_iff : ∀ node, node ∈ cells ↔ ∃ i < Nat.count (m.present · = true) RTE_MAX_LCORE,
    cell m raw i = node.toInt32

variable {cells : List UInt32}

theorem Scanned.reads {s : Scan} (scanned : Scanned m raw RTE_MAX_LCORE s) :
    Reads m raw ((sorted_cells s.config.lcore_count s.lcore_to_socket_id).map Int32.toUInt32) where
  sorted := sorted_cells_sorted ..
  mem_iff node := by
    rw [mem_sorted_cells_iff, scanned.count]
    refine exists_congr fun i => and_congr_right fun bound => ?_
    rw [scanned.cells i, if_pos (bound.trans_le (Nat.count_le _))]

theorem harmless_iff (reads : Reads m raw cells) : Harmless m raw ↔ ∀ node, node ≠ -1 →
    (node ∈ cells ↔ IsNode m node) := by
  have same : ∀ node : UInt32, (∃ i < RTE_MAX_LCORE, m.present i = true ∧
    (m.eal_cpu_socket_id i).toInt32 = node.toInt32) ↔
      IsNode m node := fun node => exists_congr fun i => and_congr_right fun _ => and_congr_right fun _ =>
    ⟨fun same => congrArg Int32.toUInt32 same, fun same => congrArg UInt32.toInt32 same⟩
  constructor
  · intro harmless node other
    rw [reads.mem_iff, ← same]
    exact harmless node.toInt32 fun minus => other (congrArg Int32.toUInt32 minus)
  · intro exact_ v other
    have listed := exact_ v.toUInt32 fun minus => other (congrArg UInt32.toInt32 minus)
    rw [reads.mem_iff, ← same, Int32.toInt32_toUInt32] at listed
    exact listed

/-- What is listed when the cells are harmless. -/
theorem listed_of_harmless (reads : Reads m raw cells) (harmless : Harmless m raw) :
    (changes (-1) cells).Pairwise (· < ·) ∧ (∀ node, node ∈ changes (-1) cells ↔ IsNode m node) ∧
      (changes (-1) cells).length ≤ RTE_MAX_NUMA_NODES := by
  have mem_cells := (harmless_iff reads).mp harmless
  have keys : ∀ node ∈ cells, sortKey (-1) ≤ sortKey node := by
    intro node member
    by_cases minus : node = -1
    · rw [minus]
    · rw [sortKey_of_lt ((mem_cells node minus).mp member).lt]
      exact (by decide : sortKey (-1) ≤ 0).trans (Int.natCast_nonneg _)
  have strict := changes_sorted sortKey_injective (List.pairwise_cons.mpr ⟨keys, reads.sorted⟩)
  obtain ⟨above, strict⟩ := List.pairwise_cons.mp strict
  have mem : ∀ node, node ∈ changes (-1) cells ↔ IsNode m node := by
    intro node
    constructor
    · intro member
      have other : node ≠ -1 := fun minus => absurd (above node member) (by rw [minus]; exact lt_irrefl _)
      exact (mem_cells node other).mp (changes_sublist.subset member)
    · intro isNode
      exact (mem_changes_iff isNode.ne).mpr ((mem_cells node isNode.ne).mpr isNode)
  have increasing : (changes (-1) cells).Pairwise (· < ·) := by
    refine strict.imp_of_mem fun {a b} memberA memberB less => ?_
    rw [sortKey_of_lt ((mem a).mp memberA).lt, sortKey_of_lt ((mem b).mp memberB).lt] at less
    exact UInt32.lt_iff_toNat_lt.mpr (Int.ofNat_lt.mp less)
  refine ⟨increasing, mem, ?_⟩
  have nodup : ((changes (-1) cells).map UInt32.toNat).Nodup :=
    List.pairwise_map.mpr (increasing.imp fun less => Nat.ne_of_lt (UInt32.lt_iff_toNat_lt.mp less))
  have inside : (changes (-1) cells).map UInt32.toNat ⊆ List.range RTE_MAX_NUMA_NODES := by
    intro k member
    obtain ⟨node, listed, rfl⟩ := List.mem_map.mp member
    exact List.mem_range.mpr ((mem node).mp listed).lt
  have bound := (List.subperm_of_subset nodup inside).length_le
  rwa [List.length_map, List.length_range] at bound

/-- The configuration is right exactly when the cells that are read are harmless. -/
theorem eal_cpu_init_meets (m : Sysfs) (raw : ℕ → Int32) (c : EalConfig) :
    Meets m (eal_cpu_init m raw c) ↔ Harmless m raw := by
  have scan := scanned m raw c RTE_MAX_LCORE
  rw [eal_cpu_init]
  generalize (List.range RTE_MAX_LCORE).foldl (scan_lcore m) ⟨{ c with lcore_count := 0 },
    raw⟩ = s at scan ⊢
  have reads := scan.reads
  dsimp only
  by_cases none_ : s.config.lcore_count = 0
  · rw [if_pos none_]
    have empty : Nat.count (m.present · = true) RTE_MAX_LCORE = 0 := scan.count.symm.trans none_
    refine iff_of_true (fun zero => absurd zero (by decide)) fun v _ => ?_
    rw [empty]
    refine iff_of_false (fun ⟨i, bound, _⟩ => absurd bound (Nat.not_lt_zero i))
      fun ⟨i, bound, present, _⟩ => ?_
    exact Nat.count_iff_forall_not.mp empty i bound present
  · rw [if_neg none_]
    generalize (sorted_cells s.config.lcore_count s.lcore_to_socket_id).map Int32.toUInt32 =
      cells at reads ⊢
    rcases le_or_gt (changes (-1) cells).length RTE_MAX_NUMA_NODES with room | full
    · have fits : ({ s.config with numa_node_count := 0 } : EalConfig).numa_node_count +
        (changes (-1) cells).length ≤
          RTE_MAX_NUMA_NODES := by simpa using room
      obtain ⟨d, collected, nodes, count, lcores, config⟩ := collect_nodes_fits fits
      rw [collected]
      rw [show EalConfig.nodes { s.config with numa_node_count := 0 } = [] from rfl,
        List.nil_append] at nodes
      constructor
      · intro meets
        have describes := meets rfl
        refine (harmless_iff reads).mpr fun node other => ?_
        rw [← mem_changes_iff other, ← nodes]
        exact describes.nodes node
      · intro harmless _
        obtain ⟨increasing, mem, _⟩ := listed_of_harmless reads harmless
        exact {
          sorted := nodes ▸ increasing
          nodes := nodes ▸ mem
          bound := by simpa [count] using room
          lcore_count := lcores.trans scan.count
          core_index := fun i bound present => by
            rw [config]
            exact scan.index i bound present }
    · rw [collect_nodes_overflows (Nat.zero_le _) (by simpa using full)]
      exact iff_of_false id fun harmless => absurd (listed_of_harmless reads harmless).2.2
        (not_le.mpr full)

/-- No core is missing below a detected one exactly when the first cores are the detected ones. -/
theorem contiguous_iff (m : Sysfs) :
    Contiguous m ↔ ∀ i < Nat.count (m.present · = true) RTE_MAX_LCORE, m.present i = true := by
  constructor
  · intro contiguous i bound
    by_contra absent
    have above : ∀ k, i + k ≤ RTE_MAX_LCORE → Nat.count (m.present · = true) (i + k) = Nat.count
      (m.present · = true) i := by
      intro k
      induction k with
      | zero => exact fun _ => rfl
      | succ k ih =>
        intro inside
        rw [← Nat.add_assoc, Nat.count_succ, ih (by omega), if_neg, Nat.add_zero]
        intro present
        rcases Nat.eq_zero_or_pos k with rfl | positive
        · exact absent present
        · exact absent (contiguous i (i + k) (by omega) (by omega) present)
    have below := Nat.count_le (m.present · = true) (n := RTE_MAX_LCORE)
    obtain ⟨k, total⟩ := Nat.exists_eq_add_of_le (bound.le.trans below)
    have same := above k (by omega)
    rw [← total] at same
    have small := Nat.count_le (m.present · = true) (n := i)
    omega
  · intro first i j less bound present
    by_contra absent
    have beyond : Nat.count (m.present · = true) RTE_MAX_LCORE ≤ i := not_lt.mp fun inside =>
      absent (first i inside)
    have all : Nat.count (m.present · = true) (Nat.count (m.present · = true) RTE_MAX_LCORE) =
        Nat.count (m.present · = true) RTE_MAX_LCORE := Nat.count_iff_forall.mpr first
    have strict := Nat.count_strict_mono (p := (m.present · = true)) present bound
    have monotone := Nat.count_monotone (m.present · = true) (beyond.trans less.le)
    omega

theorem harmless_of_contiguous (contiguous : Contiguous m) (raw : ℕ → Int32) : Harmless m raw := by
  have first := (contiguous_iff m).mp contiguous
  intro v _
  constructor
  · rintro ⟨i, bound, same⟩
    rw [cell, if_pos (first i bound)] at same
    exact ⟨i, bound.trans_le (Nat.count_le _), first i bound, same⟩
  · rintro ⟨i, bound, present, same⟩
    refine ⟨i, ?_, by rw [cell, if_pos present, same]⟩
    by_contra beyond
    have all := Nat.count_iff_forall.mpr first
    have strict := Nat.count_strict_mono (p := (m.present · = true)) present bound
    have monotone := Nat.count_monotone (m.present · = true) (not_lt.mp beyond)
    omega

/-- A cell that no core has written may hold a node that there is not. -/
theorem contiguous_of_harmless (harmless : ∀ raw, Harmless m raw) : Contiguous m := by
  rw [contiguous_iff]
  intro i bound
  by_contra absent
  obtain ⟨j, _, _, same⟩ := (harmless (fun _ => 8) 8 (by decide)).mp ⟨i, bound, if_neg absent⟩
  have lt := eal_cpu_socket_id_lt (m := m) j
  rw [show m.eal_cpu_socket_id j = 8 from congrArg Int32.toUInt32 same] at lt
  exact absurd lt (by decide)

/-- With a given stack the configuration is right exactly when the cells that are read are harmless, and with every
stack exactly when no core is missing below a detected one. -/
theorem eal_cpu_init_meets_iff (m : Sysfs) (c : EalConfig) :
    (∀ raw, Meets m (eal_cpu_init m raw c) ↔ Harmless m raw) ∧
    ((∀ raw, Meets m (eal_cpu_init m raw c)) ↔ Contiguous m) := by
  refine ⟨fun raw => eal_cpu_init_meets m raw c, fun meets => contiguous_of_harmless fun raw => ?_,
    fun contiguous raw => ?_⟩
  · exact (eal_cpu_init_meets m raw c).mp (meets raw)
  · exact (eal_cpu_init_meets m raw c).mpr (harmless_of_contiguous contiguous raw)

/-- Core 0 is missing, and cores 1 and 2 are on nodes 0 and 1. -/
private def offline : Sysfs where
  present i := decide (1 ≤ i ∧ i < 3)
  core_id _ := none
  linked socket i := if i = 0 then socket == 0 else socket == i - 1

/-- The nodes 0 and 77 are listed. -/
theorem eal_cpu_init_misses :
    ¬ Meets offline (eal_cpu_init offline (fun _ => 77)
      ⟨0, fun _ => 0, 0, fun _ => ⟨0, 0, 0, 0⟩⟩) := by
  rw [eal_cpu_init_meets]
  intro harmless
  obtain ⟨i, bound, present, node⟩ := (harmless 77 (by decide)).mp ⟨0, by decide, rfl⟩
  revert i
  decide

end Nodes

end LinuxZero.Dpdk
