import Mathlib.Logic.Function.Basic

/-! # A store of mutable objects

Programs with object identity keep references: two fields may name one object, and an object
taken out of every table is still there for whoever holds its reference. A `Heap α` is such a
store for objects of one kind: `get` and `put` go through a reference, `alloc` hands out a
reference that was never used. -/

namespace Axona.Library

/-- A reference to an object of a `Heap`. -/
abbrev Ref := Nat

/-- The objects of one kind, by reference. -/
structure Heap (α : Type*) where
  /-- The object a reference names. -/
  cell : Ref → α
  /-- The first reference that was never handed out. -/
  next : Ref

namespace Heap

variable {α : Type*}

/-- The store in which every reference is still free; `a` stands in the unused cells. -/
def empty (a : α) : Heap α := ⟨fun _ => a, 0⟩

/-- The object behind `r`. -/
def get (h : Heap α) (r : Ref) : α := h.cell r

/-- Overwrite the object behind `r`. -/
def put (h : Heap α) (r : Ref) (a : α) : Heap α :=
  { h with cell := Function.update h.cell r a }

/-- Change the object behind `r` by `f`. -/
def modify (h : Heap α) (r : Ref) (f : α → α) : Heap α := h.put r (f (h.get r))

/-- Create an object. -/
def alloc (h : Heap α) (a : α) : Heap α × Ref :=
  (⟨Function.update h.cell h.next a, h.next + 1⟩, h.next)

section

variable (h : Heap α)
include h

theorem get_put (r r' : Ref) (a : α) :
    (h.put r a).get r' = if r' = r then a else h.get r' := by
  simp [get, put, Function.update_apply]

@[simp] theorem get_put_self (r : Ref) (a : α) : (h.put r a).get r = a := by
  simp [get_put]

@[simp] theorem get_put_of_ne {r r' : Ref} (a : α) (hr : r' ≠ r) :
    (h.put r a).get r' = h.get r' := by
  simp [get_put, hr]

@[simp] theorem next_put (r : Ref) (a : α) : (h.put r a).next = h.next := rfl

theorem get_modify (r r' : Ref) (f : α → α) :
    (h.modify r f).get r' = if r' = r then f (h.get r) else h.get r' :=
  get_put h r r' _

@[simp] theorem get_modify_self (r : Ref) (f : α → α) :
    (h.modify r f).get r = f (h.get r) := by simp [get_modify]

@[simp] theorem get_modify_of_ne {r r' : Ref} (f : α → α) (hr : r' ≠ r) :
    (h.modify r f).get r' = h.get r' := by simp [get_modify, hr]

end

/-- A change that changes nothing. -/
theorem modify_eq_self {h : Heap α} {r : Ref} {f : α → α} (hf : f (h.get r) = h.get r) :
    h.modify r f = h := by
  unfold modify put
  rw [hf]
  show { h with cell := Function.update h.cell r (h.cell r) } = h
  rw [Function.update_eq_self]

variable (h : Heap α)
include h

@[simp] theorem next_modify (r : Ref) (f : α → α) : (h.modify r f).next = h.next := rfl

@[simp] theorem alloc_ref (a : α) : (h.alloc a).2 = h.next := rfl

@[simp] theorem next_alloc (a : α) : (h.alloc a).1.next = h.next + 1 := rfl

theorem get_alloc (a : α) (r : Ref) :
    (h.alloc a).1.get r = if r = h.next then a else h.get r := by
  simp [get, alloc, Function.update_apply]

/-- A new object disturbs no object that was there. -/
theorem get_alloc_of_lt (a : α) {r : Ref} (hr : r < h.next) :
    (h.alloc a).1.get r = h.get r := by
  rw [get_alloc, if_neg (Nat.ne_of_lt hr)]

/-- A new object that is changed at once is another new object. -/
theorem modify_alloc (a : α) (f : α → α) :
    (h.alloc a).1.modify h.next f = (h.alloc (f a)).1 := by
  have ha : (h.alloc a).1.get h.next = a := by rw [get_alloc, if_pos rfl]
  unfold modify
  rw [ha]
  simp [alloc, put]

end Heap

end Axona.Library
