import Mathlib.Logic.Function.Basic
import Mathlib.Order.Basic

/-! # Heap objects and the use of deleted ones

Objects live at pointers that are never handed out twice. A deleted object keeps its last content,
so that a program which goes on using it still has a behaviour, and every use or second deletion of
an object that is not allocated is recorded in `fault`. Pointer zero is the null pointer.
-/

namespace LinuxZero

structure Heap (α : Type) where
  content : ℕ → α
  live : ℕ → Bool
  next : ℕ
  fault : Bool
  positive : 0 < next
  null : live 0 = false
  fresh : ∀ p, next ≤ p → live p = false

namespace Heap

variable {α : Type}

/-- No object has been allocated yet; `value` is what uninitialised memory reads as. -/
def empty (value : α) : Heap α :=
  ⟨fun _ => value, fun _ => false, 1, false, Nat.one_pos, rfl, fun _ _ => rfl⟩

/-- `new`: the object stands at the old `next`. -/
def new (h : Heap α) (value : α) : Heap α where
  content := Function.update h.content h.next value
  live := Function.update h.live h.next true
  next := h.next + 1
  fault := h.fault
  positive := Nat.succ_pos _
  null := by rw [Function.update_of_ne (Nat.ne_of_lt h.positive), h.null]
  fresh p bound := by rw [Function.update_of_ne (by omega), h.fresh p (by omega)]

/-- The object at `p` is accessed. -/
def use (h : Heap α) (p : ℕ) : Heap α := { h with fault := h.fault || !h.live p }

/-- The object at `p` is accessed and gets a new content. -/
def modify (h : Heap α) (p : ℕ) (f : α → α) : Heap α :=
  { h.use p with content := Function.update h.content p (f (h.content p)) }

/-- `delete`. -/
def delete (h : Heap α) (p : ℕ) : Heap α where
  content := h.content
  live := Function.update h.live p false
  next := h.next
  fault := h.fault || !h.live p
  positive := h.positive
  null := by
    by_cases same : 0 = p
    · rw [← same, Function.update_self]
    · rw [Function.update_of_ne same, h.null]
  fresh q bound := by
    by_cases same : q = p
    · rw [same, Function.update_self]
    · rw [Function.update_of_ne same, h.fresh q bound]

variable (h : Heap α) (p q : ℕ) (f : α → α) (value : α)

@[simp] theorem content_new : (h.new value).content = Function.update h.content h.next value := rfl
@[simp] theorem live_new : (h.new value).live = Function.update h.live h.next true := rfl
@[simp] theorem next_new : (h.new value).next = h.next + 1 := rfl
@[simp] theorem fault_new : (h.new value).fault = h.fault := rfl

@[simp] theorem content_use : (h.use p).content = h.content := rfl
@[simp] theorem live_use : (h.use p).live = h.live := rfl
@[simp] theorem next_use : (h.use p).next = h.next := rfl
@[simp] theorem fault_use : (h.use p).fault = (h.fault || !h.live p) := rfl

@[simp] theorem content_modify :
    (h.modify p f).content = Function.update h.content p (f (h.content p)) := rfl
@[simp] theorem live_modify : (h.modify p f).live = h.live := rfl
@[simp] theorem next_modify : (h.modify p f).next = h.next := rfl
@[simp] theorem fault_modify : (h.modify p f).fault = (h.fault || !h.live p) := rfl

@[simp] theorem content_delete : (h.delete p).content = h.content := rfl
@[simp] theorem live_delete : (h.delete p).live = Function.update h.live p false := rfl
@[simp] theorem next_delete : (h.delete p).next = h.next := rfl
@[simp] theorem fault_delete : (h.delete p).fault = (h.fault || !h.live p) := rfl

theorem live_delete_iff : (h.delete p).live q = true ↔ q ≠ p ∧ h.live q = true := by
  rcases eq_or_ne q p with rfl | apart
  · simp
  · simp [apart]

variable {h p}

theorem lt_next (alive : h.live p = true) : p < h.next := by
  by_contra beyond
  rw [h.fresh p (by omega)] at alive
  contradiction

theorem ne_null (alive : h.live p = true) : p ≠ 0 := by
  rintro rfl
  rw [h.null] at alive
  contradiction

theorem ne_next (alive : h.live p = true) : p ≠ h.next := Nat.ne_of_lt (lt_next alive)

end Heap

end LinuxZero
