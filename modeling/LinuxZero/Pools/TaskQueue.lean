import LinuxZero.Lib.LinkChain
import LinuxZero.Lib.Run
import Mathlib.Data.Finset.Basic

/-! # The task queue of the thread pool

`sh_task_queue` is a singly linked list of tasks with a pointer to the cell that ends it: the first
field of the last task, or the field `head` of the queue itself. Memory is made of words; a task takes
three of them and so does the queue. `push_task` prepares its node outside the lock, one store at a
time, and any number of threads run it and `pop_task` in any order; a critical section is one step.
-/

namespace LinuxZero.Pools

/-- A task: where its `sh_task` stands, and the function and argument that it was pushed with. -/
structure Task where
  ptr : ℕ
  fn : ℕ
  args : ℕ
deriving DecidableEq, Repr

/-- Where a thread is inside `push_task`. -/
inductive PushPhase where
  | outside
  /-- `malloc` has returned the node of the task. -/
  | storeArgs (task : Task)
  | storeFun (task : Task)
  | storeLink (task : Task)
  /-- The node is ready, and `pthread_spin_lock` is next. -/
  | lock (task : Task)
deriving DecidableEq, Repr

/-- The task that a thread is about to insert. -/
def PushPhase.task : PushPhase → Option Task
  | outside => none
  | storeArgs task | storeFun task | storeLink task | lock task => some task

/-- `allocated` holds the nodes between their `malloc` and their `free`, and `held` those of them that
`pop_task` has handed out. -/
structure TaskQueue where
  mem : ℕ → ℕ
  queue : ℕ
  allocated : Finset ℕ
  held : Finset ℕ
  push : ℕ → PushPhase

inductive QueueEvent where
  /-- `push_task` is called, and `malloc` succeeds. -/
  | malloc (t : ℕ) (task : Task)
  /-- The thread executes its next store to the new node. -/
  | store (t : ℕ)
  /-- The critical section of `push_task`. -/
  | push (t : ℕ) (task : Task)
  /-- `pop_task`, with the task it returns. -/
  | pop (result : Option Task)
  /-- The thread that got a task frees its node. -/
  | free (p : ℕ)
  /-- The rest of the process stores a word. -/
  | other (address value : ℕ)
deriving DecidableEq, Repr

/-- The tasks pushed in a sequence of events. -/
def pushedTasks : List QueueEvent → List Task :=
  List.filterMap fun
    | .push _ task => some task
    | _ => none

/-- The tasks returned in a sequence of events. -/
def poppedTasks : List QueueEvent → List Task :=
  List.filterMap fun
    | .pop result => result
    | _ => none

namespace TaskQueue

section Functions

variable (s : TaskQueue)

/-- The address of the field `head`. -/
def headField : ℕ := s.queue

/-- The address of the field `tail`. -/
def tailField : ℕ := s.queue + 1

def head : ℕ := s.mem s.headField

def tail : ℕ := s.mem s.tailField

def store (address value : ℕ) : TaskQueue := { s with mem := Function.update s.mem address value }

/-- `sh_create_task_queue`, when `malloc` returns `queue`. -/
def sh_create_task_queue (mem : ℕ → ℕ) (queue : ℕ) : TaskQueue where
  mem := Function.update (Function.update mem queue 0) (queue + 1) queue
  queue := queue
  allocated := ∅
  held := ∅
  push _ := .outside

/-- The store that `push_task` executes in this phase, and the phase it leads to. -/
def advancePush (t : ℕ) : TaskQueue :=
  match s.push t with
  | .storeArgs task =>
      { s.store (task.ptr + 2) task.args with push := Function.update s.push t (.storeFun task) }
  | .storeFun task => { s.store (task.ptr + 1) task.fn with
      push := Function.update s.push t (.storeLink task) }
  | .storeLink task => { s.store task.ptr 0 with push := Function.update s.push t (.lock task) }
  | _ => s

/-- The critical section of `push_task`. -/
def pushLink (link : ℕ) : TaskQueue :=
  let s := s.store s.tail link
  s.store s.tailField link

/-- The critical section of `pop_task`. -/
def popLink : TaskQueue :=
  if s.head ≠ 0 then
    let task := s.head
    let s := s.store s.headField (s.mem task)
    if s.head = 0 then s.store s.tailField s.headField else s
  else s

/-- What `pop_task` returns, with the fields its caller reads from the node. -/
def popResult : Option Task :=
  if s.head ≠ 0 then some ⟨s.head, s.mem (s.head + 1), s.mem (s.head + 2)⟩ else none

/-- The three words at `p` are disjoint from those at `q`. -/
def Apart (p q : ℕ) : Prop := p + 3 ≤ q ∨ q + 3 ≤ p

instance (p q : ℕ) : Decidable (Apart p q) := inferInstanceAs (Decidable (_ ∨ _))

/-- The word at `address` is one of the three at `p`. -/
def Within (address p : ℕ) : Prop := p ≤ address ∧ address < p + 3

instance (address p : ℕ) : Decidable (Within address p) := inferInstanceAs (Decidable (_ ∧ _))

/-- `malloc` returns a region that is disjoint from every other one. -/
def Enabled : QueueEvent → Prop
  | .malloc t task => s.push t = .outside ∧ task.ptr ≠ 0 ∧ Apart task.ptr s.queue ∧
      ∀ p ∈ s.allocated, Apart task.ptr p
  | .store t => ∃ task, s.push t = .storeArgs task ∨ s.push t = .storeFun task ∨
      s.push t = .storeLink task
  | .push t task => s.push t = .lock task
  | .pop result => result = s.popResult
  | .free p => p ∈ s.held
  | .other address _ => ¬ Within address s.queue ∧ ∀ p ∈ s.allocated, ¬ Within address p

def apply : QueueEvent → TaskQueue
  | .malloc t task =>
    { s with allocated := insert task.ptr s.allocated, push := Function.update s.push t (.storeArgs task) }
  | .store t => s.advancePush t
  | .push t task => { s.pushLink task.ptr with push := Function.update s.push t .outside }
  | .pop _ =>
    match s.popResult with
    | some task => { s.popLink with held := insert task.ptr s.held }
    | none => s.popLink
  | .free p => { s with allocated := s.allocated.erase p, held := s.held.erase p }
  | .other address value => s.store address value

end Functions

def Step (s : TaskQueue) (event : QueueEvent) (t : TaskQueue) : Prop :=
  s.Enabled event ∧ t = s.apply event

section Lemmas

variable (s : TaskQueue) (address value : ℕ)

@[simp] theorem mem_store : (s.store address value).mem = Function.update s.mem address value := rfl
@[simp] theorem queue_store : (s.store address value).queue = s.queue := rfl
@[simp] theorem allocated_store : (s.store address value).allocated = s.allocated := rfl
@[simp] theorem held_store : (s.store address value).held = s.held := rfl
@[simp] theorem push_store : (s.store address value).push = s.push := rfl

@[simp] theorem task_outside : PushPhase.outside.task = none := rfl

@[simp] theorem head_store_head : (s.store s.headField value).head = value := Function.update_self ..

theorem mem_pushLink (link : ℕ) : (s.pushLink link).mem =
    Function.update (Function.update s.mem s.tail link) (s.queue + 1) link := rfl

theorem not_apart_self (p : ℕ) : ¬ Apart p p := by
  rintro (less | less) <;> omega

theorem within_add (p k : ℕ) (bound : k < 3) : Within (p + k) p := ⟨by omega, by omega⟩

/-- A word of one region is no word of a disjoint one. -/
theorem Within.not_within {address p q : ℕ} (within : Within address p) (apart : Apart p q) :
    ¬ Within address q := by
  rintro ⟨lower, upper⟩
  obtain ⟨lower', upper'⟩ := within
  rcases apart with less | less <;> omega

end Lemmas

end TaskQueue

/-- The list of tasks that the memory holds: its nodes in order, the cell that `tail` points to, and what
each node carries. -/
structure Represents (s : TaskQueue) (queued : List Task) : Prop where
  chain : Chain s.mem s.headField (queued.map Task.ptr)
  tail : s.tail = lastCell s.headField (queued.map Task.ptr)
  stored : ∀ task ∈ queued, s.mem (task.ptr + 1) = task.fn ∧ s.mem (task.ptr + 2) = task.args

namespace Represents

open TaskQueue

variable {s : TaskQueue} {queued rest : List Task} {task : Task}

/-- `tail` is the link field of the last node, or `head` in an empty queue. -/
theorem tail_eq (rep : Represents s queued) :
    s.tail = match queued.getLast? with
      | none => s.headField
      | some last => last.ptr := by
  rw [rep.tail]
  rcases List.eq_nil_or_concat queued with rfl | ⟨front, last, rfl⟩
  · rfl
  · simp [lastCell_append]

theorem popResult_eq (rep : Represents s queued) : s.popResult = queued.head? := by
  cases queued with
  | nil =>
    have null : s.head = 0 := rep.chain
    simp [popResult, null]
  | cons task rest =>
    have first : s.head = task.ptr := rep.chain.1
    have nonnull : task.ptr ≠ 0 := rep.chain.2.1
    obtain ⟨fn, args⟩ := rep.stored task List.mem_cons_self
    simp only [popResult, first, if_pos nonnull, fn, args, List.head?_cons]

/-- A store outside the queue and its nodes. -/
theorem store {address : ℕ} (rep : Represents s queued) (value : ℕ) (header : ¬ Within address s.queue)
    (nodes : ∀ task ∈ queued, ¬ Within address task.ptr) : Represents (s.store address value) queued := by
  have outside : ∀ p k, ¬ Within address p → k < 3 → Function.update s.mem address value (p + k) =
    s.mem (p + k) := by
    intro p k apart bound
    apply Function.update_of_ne
    rintro rfl
    exact apart ⟨by omega, by omega⟩
  refine ⟨rep.chain.congr ?_, ?_, ?_⟩
  · intro c member
    rcases List.mem_cons.mp member with rfl | node
    · exact outside s.queue 0 header (by omega)
    · obtain ⟨task, queuedTask, rfl⟩ := List.mem_map.mp node
      exact outside task.ptr 0 (nodes task queuedTask) (by omega)
  · exact (outside s.queue 1 header (by omega)).trans rep.tail
  · intro task member
    have apart := nodes task member
    exact ⟨(outside _ 1 apart (by omega)).trans (rep.stored task member).1,
      (outside _ 2 apart (by omega)).trans (rep.stored task member).2⟩

/-- The last cell is the header or the first word of a node. -/
theorem tail_cases (rep : Represents s queued) : s.tail = s.queue ∨
    ∃ other ∈ queued, s.tail = other.ptr := by
  rw [rep.tail]
  rcases List.mem_cons.mp (lastCell_mem s.headField (queued.map Task.ptr)) with header | node
  · exact Or.inl header
  · obtain ⟨other, member, same⟩ := List.mem_map.mp node
    exact Or.inr ⟨other, member, same.symm⟩

/-- The critical section of `push_task` appends a prepared node. -/
theorem push (rep : Represents s queued) (distinct : (queued.map Task.ptr).Nodup)
    (headers : ∀ other ∈ queued, Apart other.ptr s.queue)
    (nodes : ∀ first ∈ queued, ∀ second ∈ queued, first.ptr ≠ second.ptr → Apart first.ptr second.ptr)
    (header : Apart task.ptr s.queue) (fresh : ∀ other ∈ queued, Apart task.ptr other.ptr)
    (nonnull : task.ptr ≠ 0) (link : s.mem task.ptr = 0)
    (fields : s.mem (task.ptr + 1) = task.fn ∧ s.mem (task.ptr + 2) = task.args) :
    Represents (s.pushLink task.ptr) (queued ++ [task]) := by
  have last := rep.tail_cases
  have unchanged : ∀ address, address ≠ s.tail → address ≠ s.queue + 1 →
      (s.pushLink task.ptr).mem address = s.mem address := by
    intro address notTail notField
    rw [mem_pushLink, Function.update_of_ne notField, Function.update_of_ne notTail]
  have linked : (s.pushLink task.ptr).mem s.tail = task.ptr := by
    have notField : s.tail ≠ s.queue + 1 := by
      rcases last with same | ⟨other, member, same⟩
      · omega
      · rcases headers other member with less | less <;> omega
    rw [mem_pushLink, Function.update_of_ne notField, Function.update_self]
  have beyond : ∀ k < 3, task.ptr + k ≠ s.tail ∧ task.ptr + k ≠ s.queue + 1 := by
    intro k bound
    constructor
    · rcases last with same | ⟨other, member, same⟩
      · rcases header with less | less <;> omega
      · rcases fresh other member with less | less <;> omega
    · rcases header with less | less <;> omega
  refine ⟨?_, ?_, ?_⟩
  · rw [List.map_append]
    refine rep.chain.append ?_ ?_ nonnull ?_ ?_ ?_
    · refine List.nodup_cons.mpr ⟨?_, distinct⟩
      intro member
      obtain ⟨other, queuedOther, same⟩ := List.mem_map.mp member
      exact not_apart_self _ (same ▸ headers other queuedOther)
    · intro member
      rcases List.mem_cons.mp member with same | node
      · exact not_apart_self _ (same ▸ header)
      · obtain ⟨other, queuedOther, same⟩ := List.mem_map.mp node
        exact not_apart_self _ (same ▸ fresh other queuedOther)
    · rw [← rep.tail]
      exact linked
    · exact (unchanged _ (beyond 0 (by omega)).1 (beyond 0 (by omega)).2).trans link
    · intro c member notLast
      refine unchanged c (rep.tail ▸ notLast) ?_
      rcases List.mem_cons.mp member with rfl | node
      · exact (Nat.succ_ne_self s.queue).symm
      · obtain ⟨other, queuedOther, rfl⟩ := List.mem_map.mp node
        rcases headers other queuedOther with less | less <;> omega
  · rw [List.map_append]
    refine Eq.trans ?_ (lastCell_append s.headField task.ptr (queued.map Task.ptr)).symm
    exact Function.update_self ..
  · intro other member
    rcases List.mem_append.mp member with old | new
    · have stored := rep.stored other old
      have field : ∀ k, 0 < k → k < 3 → (s.pushLink task.ptr).mem (other.ptr + k) =
        s.mem (other.ptr + k) := by
        intro k positive bound
        apply unchanged
        · rcases last with same | ⟨target, member', same⟩
          · rcases headers other old with less | less <;> omega
          · rcases eq_or_ne other.ptr target.ptr with equal | differ
            · omega
            · rcases nodes other old target member' differ with less | less <;> omega
        · rcases headers other old with less | less <;> omega
      exact ⟨(field 1 (by omega) (by omega)).trans stored.1,
        (field 2 (by omega) (by omega)).trans stored.2⟩
    · obtain rfl := List.mem_singleton.mp new
      exact ⟨(unchanged _ (beyond 1 (by omega)).1 (beyond 1 (by omega)).2).trans fields.1,
        (unchanged _ (beyond 2 (by omega)).1 (beyond 2 (by omega)).2).trans fields.2⟩

/-- The critical section of `pop_task` takes the first node off. -/
theorem pop (rep : Represents s (task :: rest)) (distinct : ((task :: rest).map Task.ptr).Nodup)
    (headers : ∀ other ∈ rest, Apart other.ptr s.queue) : Represents s.popLink rest := by
  have first : s.head = task.ptr := rep.chain.1
  have nonnull : task.ptr ≠ 0 := rep.chain.2.1
  have follow : Chain s.mem task.ptr (rest.map Task.ptr) := rep.chain.2.2
  have tail : s.tail = lastCell task.ptr (rest.map Task.ptr) := rep.tail
  cases rest with
  | nil =>
    have ends : s.mem task.ptr = 0 := follow
    have popped : s.popLink = (s.store s.headField 0).store s.tailField s.headField := by
      simp only [popLink, first, if_pos nonnull, ends, head_store_head, if_true]
      rfl
    rw [popped]
    refine ⟨?_, ?_, fun other member => absurd member List.not_mem_nil⟩
    · change Function.update (Function.update s.mem s.queue 0) (s.queue + 1) s.queue s.queue = 0
      rw [Function.update_of_ne (by omega), Function.update_self]
    · exact Function.update_self ..
  | cons second later =>
    have link : s.mem task.ptr = second.ptr := follow.1
    have positive : second.ptr ≠ 0 := follow.2.1
    have popped : s.popLink = s.store s.headField second.ptr := by
      simp only [popLink, first, if_pos nonnull, link, head_store_head, if_neg positive]
    have apart : ∀ other ∈ second :: later, ∀ k < 3, (s.store s.headField second.ptr).mem
      (other.ptr + k) =
        s.mem (other.ptr + k) := by
      intro other member k bound
      refine Function.update_of_ne ?_ ..
      have field : s.headField = s.queue := rfl
      rcases headers other member with less | less <;> omega
    rw [popped]
    refine ⟨⟨Function.update_self .., positive, ?_⟩, ?_, ?_⟩
    · apply follow.2.2.congr
      intro c member
      obtain ⟨other, queuedOther, rfl⟩ := List.mem_map.mp (List.map_cons ▸ member)
      exact apart other queuedOther 0 (by omega)
    · refine Eq.trans ?_ tail
      exact Function.update_of_ne (Nat.succ_ne_self s.queue) ..
    · intro other member
      have stored := rep.stored other (List.mem_cons_of_mem task member)
      exact ⟨(apart other member 1 (by omega)).trans stored.1,
        (apart other member 2 (by omega)).trans stored.2⟩

end Represents

/-- What the stores of `push_task` have left in a node so far. -/
def Prepared (mem : ℕ → ℕ) : PushPhase → Prop
  | .outside | .storeArgs _ => True
  | .storeFun task => mem (task.ptr + 2) = task.args
  | .storeLink task => mem (task.ptr + 1) = task.fn ∧ mem (task.ptr + 2) = task.args
  | .lock task => mem task.ptr = 0 ∧ mem (task.ptr + 1) = task.fn ∧ mem (task.ptr + 2) = task.args

/-- Only the words of the node matter. -/
theorem Prepared.congr {mem mem' : ℕ → ℕ} {phase : PushPhase} (prepared : Prepared mem phase)
    (same : ∀ task, phase.task = some task → ∀ k < 3, mem' (task.ptr + k) = mem (task.ptr + k)) :
    Prepared mem' phase := by
  cases phase with
  | outside => trivial
  | storeArgs task => trivial
  | storeFun task => exact (same task rfl 2 (by omega)).trans prepared
  | storeLink task =>
    exact ⟨(same task rfl 1 (by omega)).trans prepared.1, (same task rfl 2 (by omega)).trans prepared.2⟩
  | lock task =>
    exact ⟨(same task rfl 0 (by omega)).trans prepared.1, (same task rfl 1 (by omega)).trans prepared.2.1,
      (same task rfl 2 (by omega)).trans prepared.2.2⟩

open TaskQueue in
/-- A store that misses a node leaves what has been prepared in it. -/
theorem Prepared.store {mem : ℕ → ℕ} {phase : PushPhase} (prepared : Prepared mem phase)
    (address value : ℕ) (apart : ∀ task, phase.task = some task → ¬ Within address task.ptr) :
    Prepared (Function.update mem address value) phase := by
  apply prepared.congr
  intro task same k bound
  apply Function.update_of_ne
  rintro rfl
  exact apart task same (within_add task.ptr k bound)

namespace TaskQueue

variable {s t : TaskQueue} {queued : List Task} {event : QueueEvent}

/-- Every node has one owner: the queue, a thread inside `push_task`, or the thread that popped it. -/
structure Owned (s : TaskQueue) (queued : List Task) : Prop where
  nonnull : 0 ∉ s.allocated
  header : ∀ p ∈ s.allocated, Apart p s.queue
  nodes : ∀ p ∈ s.allocated, ∀ q ∈ s.allocated, p ≠ q → Apart p q
  distinct : (queued.map Task.ptr).Nodup
  linked : ∀ task ∈ queued, task.ptr ∈ s.allocated
  held : ∀ p ∈ s.held, p ∈ s.allocated ∧ ∀ task ∈ queued, task.ptr ≠ p
  pushing : ∀ i task, (s.push i).task = some task →
    task.ptr ∈ s.allocated ∧ task.ptr ∉ s.held ∧ ∀ other ∈ queued, other.ptr ≠ task.ptr
  alone : ∀ i j task other, (s.push i).task = some task → (s.push j).task = some other →
    task.ptr = other.ptr → i = j

/-- The queue is the list, nodes have one owner, and unfinished ones are prepared as far as their threads
have come. -/
structure Inv (s : TaskQueue) (queued : List Task) : Prop where
  represents : Represents s queued
  owned : Owned s queued
  prepared : ∀ i, Prepared s.mem (s.push i)

theorem Owned.headers (owned : Owned s queued) : ∀ task ∈ queued, Apart task.ptr s.queue :=
  fun task member => owned.header _ (owned.linked task member)

/-- A word of a node that a thread prepares is in no node of the queue and in no header. -/
theorem Owned.outside (owned : Owned s queued) {i : ℕ} {task : Task}
    (pushing : (s.push i).task = some task) {address : ℕ} (within : Within address task.ptr) :
    ¬ Within address s.queue ∧ ∀ other ∈ queued, ¬ Within address other.ptr := by
  obtain ⟨allocated, _, apart⟩ := owned.pushing i task pushing
  refine ⟨within.not_within (owned.header _ allocated), ?_⟩
  intro other member
  exact within.not_within (owned.nodes _ allocated _ (owned.linked other member)
    (apart other member).symm)

/-- `pop_task` writes to the header only. -/
theorem mem_popLink {address : ℕ} (outside : ¬ Within address s.queue) : s.popLink.mem address =
    s.mem address := by
  have notHead : address ≠ s.headField := by
    rintro rfl
    exact outside (within_add s.queue 0 (by omega))
  have notTail : address ≠ s.tailField := by
    rintro rfl
    exact outside (within_add s.queue 1 (by omega))
  unfold popLink
  dsimp only
  split_ifs
  · exact (Function.update_of_ne notTail ..).trans (Function.update_of_ne notHead ..)
  · exact Function.update_of_ne notHead ..
  · rfl

theorem popLink_same : s.popLink.queue = s.queue ∧ s.popLink.allocated = s.allocated ∧
    s.popLink.push = s.push := by
  unfold popLink
  dsimp only
  split_ifs <;> exact ⟨rfl, rfl, rfl⟩

/-- The node goes from its thread to the queue. -/
theorem Owned.push (owned : Owned s queued) {i : ℕ} {task : Task}
    (pushing : (s.push i).task = some task) :
    Owned (s.apply (.push i task)) (queued ++ [task]) := by
  obtain ⟨allocated, notHeld, unlinked⟩ := owned.pushing i task pushing
  have others : ∀ j other, (Function.update s.push i .outside j).task = some other →
      j ≠ i ∧ (s.push j).task = some other := by
    intro j other pushing'
    rcases eq_or_ne j i with same | differ
    · rw [same, Function.update_self] at pushing'
      exact absurd pushing' (by simp)
    · rw [Function.update_of_ne differ] at pushing'
      exact ⟨differ, pushing'⟩
  refine { owned with distinct := ?_, linked := ?_, held := ?_, pushing := ?_, alone := ?_ }
  · rw [List.map_append, List.map_singleton]
    refine List.Nodup.append owned.distinct (List.nodup_singleton _) ?_
    simp only [List.disjoint_singleton, List.mem_map, not_exists, not_and]
    exact unlinked
  · intro other member
    rcases List.mem_append.mp member with old | new
    · exact owned.linked other old
    · exact List.mem_singleton.mp new ▸ allocated
  · intro p member
    refine ⟨(owned.held p member).1, ?_⟩
    intro other member'
    rcases List.mem_append.mp member' with old | new
    · exact (owned.held p member).2 other old
    · rw [List.mem_singleton.mp new]
      rintro rfl
      exact notHeld member
  · intro j other pushing'
    obtain ⟨differ, old⟩ := others j other pushing'
    obtain ⟨allocated', notHeld', unlinked'⟩ := owned.pushing j other old
    refine ⟨allocated', notHeld', ?_⟩
    intro queuedTask member
    rcases List.mem_append.mp member with old' | new
    · exact unlinked' queuedTask old'
    · rw [List.mem_singleton.mp new]
      exact fun same => differ (owned.alone j i other task old pushing same.symm)
  · intro j k first second left right
    exact owned.alone j k first second (others j first left).2 (others k second right).2

/-- The first node goes from the queue to the thread that has popped it. -/
theorem Owned.pop {task : Task} {rest : List Task} (owned : Owned s (task :: rest)) :
    Owned { s.popLink with held := insert task.ptr s.held } rest := by
  have tasks := List.nodup_cons.mp owned.distinct
  have same : s.popLink.queue = s.queue ∧ s.popLink.allocated = s.allocated ∧
    s.popLink.push = s.push := popLink_same
  refine
    { nonnull := ?_, header := ?_, nodes := ?_, distinct := tasks.2, linked := ?_, held := ?_,
      pushing := ?_, alone := ?_ } <;> simp only [same.1, same.2.1, same.2.2]
  · exact owned.nonnull
  · exact owned.header
  · exact owned.nodes
  · exact fun other member => owned.linked other (List.mem_cons_of_mem task member)
  · intro p member
    rcases Finset.mem_insert.mp member with rfl | old
    · refine ⟨owned.linked task List.mem_cons_self, ?_⟩
      exact fun other member' same => tasks.1 (List.mem_map.mpr ⟨other, member', same⟩)
    · refine ⟨(owned.held p old).1, ?_⟩
      exact fun other member' => (owned.held p old).2 other (List.mem_cons_of_mem task member')
  · intro j other pushing
    obtain ⟨allocated, notHeld, unlinked⟩ := owned.pushing j other pushing
    refine ⟨allocated, ?_, fun queuedTask member => unlinked queuedTask
      (List.mem_cons_of_mem task member)⟩
    simp only [Finset.mem_insert, not_or]
    exact ⟨(unlinked task List.mem_cons_self).symm, notHeld⟩
  · exact owned.alone

namespace Inv

/-- `malloc` returns a node that nobody owned. -/
theorem malloc (inv : Inv s queued) {i : ℕ} {task : Task} (outside : s.push i = .outside)
    (nonnull : task.ptr ≠ 0) (header : Apart task.ptr s.queue)
    (fresh : ∀ p ∈ s.allocated, Apart task.ptr p) :
    Inv (s.apply (.malloc i task)) queued := by
  have unowned : task.ptr ∉ s.allocated := fun member => not_apart_self _ (fresh _ member)
  have owner : ∀ j other, (Function.update s.push i (.storeArgs task) j).task = some other →
      (j = i ∧ other = task) ∨ (s.push j).task = some other := by
    intro j other pushing
    rcases eq_or_ne j i with same | differ
    · rw [same, Function.update_self] at pushing
      exact Or.inl ⟨same, (Option.some.inj pushing).symm⟩
    · rw [Function.update_of_ne differ] at pushing
      exact Or.inr pushing
  refine ⟨⟨inv.represents.chain, inv.represents.tail, inv.represents.stored⟩, ?_, ?_⟩
  · refine
      { nonnull := ?_, header := ?_, nodes := ?_, distinct := inv.owned.distinct, linked := ?_, held := ?_,
        pushing := ?_, alone := ?_ }
    · simp [apply, nonnull.symm, inv.owned.nonnull]
    · intro p member
      rcases Finset.mem_insert.mp member with rfl | old
      · exact header
      · exact inv.owned.header p old
    · intro p member q member' differ
      rcases Finset.mem_insert.mp member with rfl | old <;>
        rcases Finset.mem_insert.mp member' with rfl | old'
      · exact absurd rfl differ
      · exact fresh q old'
      · exact Or.symm (fresh p old)
      · exact inv.owned.nodes p old q old' differ
    · exact fun other member => Finset.mem_insert_of_mem (inv.owned.linked other member)
    · exact fun p member => ⟨Finset.mem_insert_of_mem (inv.owned.held p member).1,
        (inv.owned.held p member).2⟩
    · intro j other pushing
      rcases owner j other pushing with ⟨_, rfl⟩ | old
      · refine ⟨Finset.mem_insert_self .., fun member => unowned (inv.owned.held _ member).1, ?_⟩
        exact fun queuedTask member same => unowned (same ▸ inv.owned.linked queuedTask member)
      · obtain ⟨allocated, apart⟩ := inv.owned.pushing j other old
        exact ⟨Finset.mem_insert_of_mem allocated, apart⟩
    · intro j k first second left right same
      rcases owner j first left with ⟨isFirst, rfl⟩ | old
      · rcases owner k second right with ⟨isSecond, _⟩ | old'
        · exact isFirst.trans isSecond.symm
        · exact absurd (same ▸ (inv.owned.pushing k second old').1) unowned
      · rcases owner k second right with ⟨_, rfl⟩ | old'
        · exact absurd (same ▸ (inv.owned.pushing j first old).1) unowned
        · exact inv.owned.alone j k first second old old' same
  · intro j
    rcases eq_or_ne j i with rfl | differ
    · simp only [apply, Function.update_self, Prepared]
    · rw [show (s.apply (.malloc i task)).push j = s.push j from Function.update_of_ne differ ..]
      exact inv.prepared j

/-- A thread stores into the node that it prepares and goes on to its next phase. -/
theorem prepare (inv : Inv s queued) {i address value : ℕ} {task : Task} {phase : PushPhase}
    (pushing : (s.push i).task = some task) (same : phase.task = some task)
    (within : Within address task.ptr)
    (prepared : Prepared (Function.update s.mem address value) phase) :
    Inv { s.store address value with push := Function.update s.push i phase } queued := by
  have tasks : ∀ j, (Function.update s.push i phase j).task = (s.push j).task := by
    intro j
    rcases eq_or_ne j i with rfl | differ
    · rw [Function.update_self, same, pushing]
    · rw [Function.update_of_ne differ]
  obtain ⟨header, nodes⟩ := inv.owned.outside pushing within
  have stored := inv.represents.store value header nodes
  refine ⟨⟨stored.chain, stored.tail, stored.stored⟩, ?_, ?_⟩
  · refine { inv.owned with pushing := ?_, alone := ?_ }
    · intro j other
      simp only [tasks]
      exact inv.owned.pushing j other
    · intro j k first second
      simp only [tasks]
      exact inv.owned.alone j k first second
  · intro j
    rcases eq_or_ne j i with rfl | differ
    · change Prepared (Function.update s.mem address value) (Function.update s.push j phase j)
      rw [Function.update_self]
      exact prepared
    · simp only [Function.update_of_ne differ]
      refine (inv.prepared j).store address value ?_
      intro other pushing'
      have apart : task.ptr ≠ other.ptr := fun equal =>
        differ (inv.owned.alone j i other task pushing' pushing equal.symm)
      exact within.not_within (inv.owned.nodes _ (inv.owned.pushing i task pushing).1 _
        (inv.owned.pushing j other pushing').1 apart)

theorem store (inv : Inv s queued) {i : ℕ} {task : Task}
    (phase : s.push i = .storeArgs task ∨ s.push i = .storeFun task ∨ s.push i = .storeLink task) :
    Inv (s.apply (.store i)) queued := by
  have prepared := inv.prepared i
  rcases phase with phase | phase | phase <;> rw [phase] at prepared <;>
    simp only [apply, advancePush, phase]
  · exact inv.prepare (phase ▸ rfl) rfl ⟨by omega, by omega⟩ (Function.update_self ..)
  · refine inv.prepare (phase ▸ rfl) rfl ⟨by omega, by omega⟩ ⟨Function.update_self .., ?_⟩
    rw [Function.update_of_ne (by omega)]
    exact prepared
  · refine inv.prepare (phase ▸ rfl) rfl ⟨by omega, by omega⟩ ⟨Function.update_self .., ?_⟩
    rw [Function.update_of_ne (by omega), Function.update_of_ne (by omega)]
    exact prepared

/-- The critical section of `push_task`. -/
theorem push (inv : Inv s queued) {i : ℕ} {task : Task} (phase : s.push i = .lock task) :
    Inv (s.apply (.push i task)) (queued ++ [task]) := by
  have pushing : (s.push i).task = some task := phase ▸ rfl
  obtain ⟨allocated, _, unlinked⟩ := inv.owned.pushing i task pushing
  obtain ⟨link, fields⟩ : Prepared s.mem (.lock task) := phase ▸ inv.prepared i
  have nonnull : task.ptr ≠ 0 := fun null => inv.owned.nonnull (null ▸ allocated)
  have represents := inv.represents.push inv.owned.distinct inv.owned.headers
    (fun first member second member' =>
      inv.owned.nodes _ (inv.owned.linked first member) _ (inv.owned.linked second member'))
    (inv.owned.header _ allocated)
    (fun other member => inv.owned.nodes _ allocated _ (inv.owned.linked other member)
      (unlinked other member).symm)
    nonnull link fields
  refine ⟨⟨represents.chain, represents.tail, represents.stored⟩, inv.owned.push pushing, fun j => ?_⟩
  rcases eq_or_ne j i with rfl | differ
  · simp only [apply, Function.update_self, Prepared]
  · rw [show (s.apply (.push i task)).push j = s.push j from Function.update_of_ne differ ..]
    have first : Prepared (Function.update s.mem s.tail task.ptr) (s.push j) := by
      refine (inv.prepared j).store _ _ fun other pushing' within => ?_
      obtain ⟨header, nodes⟩ := inv.owned.outside pushing' within
      rcases inv.represents.tail_cases with head | ⟨last, member, same⟩
      · exact header (head ▸ within_add s.queue 0 (by omega))
      · exact nodes last member (same ▸ within_add last.ptr 0 (by omega))
    refine first.store _ _ fun other pushing' within => ?_
    exact (inv.owned.outside pushing' within).1 (within_add s.queue 1 (by omega))

/-- The critical section of `pop_task`. -/
theorem pop (inv : Inv s queued) : Inv (s.apply (.pop s.popResult)) queued.tail := by
  have result := inv.represents.popResult_eq
  cases queued with
  | nil =>
    have null : s.head = 0 := inv.represents.chain
    have idle : s.apply (.pop s.popResult) = s := by
      simp [apply, result, popLink, null]
    rw [idle]
    exact inv
  | cons task rest =>
    have represents := inv.represents.pop inv.owned.distinct
      (fun other member => inv.owned.headers other (List.mem_cons_of_mem task member))
    have popped : s.apply (.pop s.popResult) = { s.popLink with held := insert task.ptr s.held } := by
      simp only [apply, result, List.head?_cons]
    rw [popped, List.tail_cons]
    refine ⟨⟨represents.chain, represents.tail, represents.stored⟩, inv.owned.pop, fun j => ?_⟩
    simp only [popLink_same.2.2]
    refine (inv.prepared j).congr fun other pushing k bound => ?_
    exact mem_popLink (inv.owned.outside pushing (within_add other.ptr k bound)).1

/-- A node that was popped goes back to `malloc`. -/
theorem free (inv : Inv s queued) {p : ℕ} (held : p ∈ s.held) : Inv (s.apply (.free p)) queued := by
  have apart := (inv.owned.held p held).2
  refine ⟨⟨inv.represents.chain, inv.represents.tail, inv.represents.stored⟩, ?_, inv.prepared⟩
  refine
    { nonnull := fun member => inv.owned.nonnull (Finset.mem_of_mem_erase member)
      header := fun q member => inv.owned.header q (Finset.mem_of_mem_erase member)
      nodes := ?_, distinct := inv.owned.distinct, linked := ?_, held := ?_, pushing := ?_,
        alone := inv.owned.alone }
  · exact fun q member r member' =>
      inv.owned.nodes q (Finset.mem_of_mem_erase member) r (Finset.mem_of_mem_erase member')
  · exact fun task member => Finset.mem_erase.mpr ⟨apart task member, inv.owned.linked task member⟩
  · intro q member
    obtain ⟨differ, old⟩ := Finset.mem_erase.mp member
    exact ⟨Finset.mem_erase.mpr ⟨differ, (inv.owned.held q old).1⟩, (inv.owned.held q old).2⟩
  · intro j task pushing
    obtain ⟨allocated, notHeld, unlinked⟩ := inv.owned.pushing j task pushing
    refine ⟨Finset.mem_erase.mpr ⟨?_, allocated⟩,
      fun member => notHeld (Finset.mem_of_mem_erase member), unlinked⟩
    rintro rfl
    exact notHeld held

/-- The rest of the process stores into its own memory. -/
theorem other (inv : Inv s queued) {address : ℕ} (value : ℕ) (header : ¬ Within address s.queue)
    (nodes : ∀ p ∈ s.allocated, ¬ Within address p) : Inv (s.apply (.other address value)) queued := by
  refine ⟨inv.represents.store value header fun task member => nodes _ (inv.owned.linked task member),
    { inv.owned with }, ?_⟩
  intro j
  refine (inv.prepared j).store address value ?_
  exact fun task pushing => nodes _ (inv.owned.pushing j task pushing).1

end Inv

/-- The FIFO list that the queue stands for. -/
def fifo (queued : List Task) : QueueEvent → List Task
  | .push _ task => queued ++ [task]
  | .pop _ => queued.tail
  | _ => queued

/-- A step of the list: `pop` returns its first task, and nothing exactly when it is empty. -/
def FifoStep (queued : List Task) (event : QueueEvent) (rest : List Task) : Prop :=
  (∀ result, event = .pop result → result = queued.head?) ∧ rest = fifo queued event

theorem Inv.step (inv : Inv s queued) (step : Step s event t) :
    Inv t (fifo queued event) ∧ FifoStep queued event (fifo queued event) := by
  obtain ⟨enabled, rfl⟩ := step
  cases event with
  | malloc i task =>
    obtain ⟨outside, nonnull, header, fresh⟩ := enabled
    exact ⟨inv.malloc outside nonnull header fresh, nofun, rfl⟩
  | store i =>
    obtain ⟨task, phase⟩ := enabled
    exact ⟨inv.store phase, nofun, rfl⟩
  | push i task => exact ⟨inv.push enabled, nofun, rfl⟩
  | pop result =>
    obtain rfl : result = s.popResult := enabled
    refine ⟨inv.pop, ?_, rfl⟩
    rintro other ⟨⟩
    exact inv.represents.popResult_eq
  | free p => exact ⟨inv.free enabled, nofun, rfl⟩
  | other address value => exact ⟨inv.other value enabled.1 enabled.2, nofun, rfl⟩

/-- The new queue is empty, and its `tail` points to its `head`. -/
theorem inv_create (mem : ℕ → ℕ) (queue : ℕ) : Inv (sh_create_task_queue mem queue) [] := by
  refine ⟨⟨?_, Function.update_self .., fun task member => absurd member List.not_mem_nil⟩, ?_,
    fun _ => trivial⟩
  · exact (Function.update_of_ne (Nat.succ_ne_self queue).symm ..).trans (Function.update_self ..)
  · refine
      { nonnull := Finset.notMem_empty 0, header := ?_, nodes := ?_, distinct := List.nodup_nil,
        linked := ?_, held := ?_, pushing := ?_, alone := ?_ } <;> simp [sh_create_task_queue]

/-- A list served in order has returned what it was given, except for what it still holds. -/
theorem fifo_order {events : List QueueEvent} (run : Run FifoStep [] events queued) :
    pushedTasks events = poppedTasks events ++ queued := by
  refine run.history (fun events queued => pushedTasks events = poppedTasks events ++ queued) ?_ rfl
  rintro events queued event _ order ⟨result, rfl⟩
  simp only [pushedTasks, poppedTasks, List.filterMap_append] at order ⊢
  cases event with
  | push i task => simp [order, fifo]
  | pop popped =>
    rw [result popped rfl, order]
    cases queued <;> simp [fifo]
  | _ => simp [order, fifo]

/-- The queue refines the list that is served in order: after any steps of any threads there is a list
that the same events lead to, `pop_task` returns its first task and null exactly when it is empty, `tail`
points to the link field of its last node or to `head`, and every pushed task was returned once, in order,
or is still in it. -/
theorem queue_refines_fifo (mem : ℕ → ℕ) (queue : ℕ) {events : List QueueEvent}
    (run : Run Step (sh_create_task_queue mem queue) events s) :
    ∃ queued, Run FifoStep [] events queued ∧ Chain s.mem s.headField (queued.map Task.ptr) ∧
      (∀ task ∈ queued, s.mem (task.ptr + 1) = task.fn ∧ s.mem (task.ptr + 2) = task.args) ∧
      (s.tail = match queued.getLast? with
        | none => s.headField
        | some last => last.ptr) ∧
      s.popResult = queued.head? ∧ (s.popResult = none ↔ queued = []) ∧
      pushedTasks events = poppedTasks events ++ queued := by
  have refined : ∃ queued, Run FifoStep [] events queued ∧ Inv s queued := by
    refine run.history (fun events s => ∃ queued, Run FifoStep [] events queued ∧ Inv s queued) ?_
      ⟨[], .start, inv_create mem queue⟩
    rintro events s event t ⟨queued, run, inv⟩ step
    obtain ⟨inv', fifoStep⟩ := inv.step step
    exact ⟨_, .next run fifoStep, inv'⟩
  obtain ⟨queued, fifoRun, inv⟩ := refined
  have result := inv.represents.popResult_eq
  refine ⟨queued, fifoRun, inv.represents.chain, inv.represents.stored,
    inv.represents.tail_eq, result, ?_, fifo_order fifoRun⟩
  rw [result]
  exact List.head?_eq_none_iff

/-- Thread 1 pushes two tasks and thread 2 takes the first one in between. -/
def twoPushes : List QueueEvent :=
  [.malloc 1 ⟨10, 7, 8⟩, .store 1, .store 1, .store 1, .push 1 ⟨10, 7, 8⟩, .malloc 1 ⟨20, 7, 9⟩, .store 1,
    .pop (some ⟨10, 7, 8⟩), .free 10, .store 1, .store 1, .pop none, .push 1 ⟨20, 7, 9⟩]

theorem twoPushes_fifo : ∃ queued, pushedTasks twoPushes = poppedTasks twoPushes ++ queued ∧
    queued.map Task.args = [9] := by
  have replays : Run.Replays Enabled apply (sh_create_task_queue (fun _ => 5) 100) twoPushes := by
    refine ⟨⟨rfl, by decide, by decide, by decide⟩, ⟨_, Or.inl rfl⟩, ⟨_, Or.inr (Or.inl rfl)⟩,
      ⟨_, Or.inr (Or.inr rfl)⟩, rfl, ⟨rfl, by decide, by decide, by decide +kernel⟩, ⟨_, Or.inl rfl⟩, rfl,
      Finset.mem_insert_self .., ⟨_, Or.inr (Or.inl rfl)⟩, ⟨_, Or.inr (Or.inr rfl)⟩, rfl, rfl, trivial⟩
  obtain ⟨queued, _, _, _, _, _, _, order⟩ := queue_refines_fifo (fun _ => 5) 100
    (Run.of_replays twoPushes _ replays)
  refine ⟨queued, order, ?_⟩
  obtain rfl := List.append_cancel_left
    (order.symm.trans (show _ = poppedTasks twoPushes ++ [⟨20, 7, 9⟩] from rfl))
  rfl

end TaskQueue

end LinuxZero.Pools
