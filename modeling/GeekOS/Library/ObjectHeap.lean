import Mathlib.Data.Nat.Notation
import Mathlib.Logic.Function.Basic
import Mathlib.Tactic.Common

/-!
# A heap of objects

Objects `O` behind references that are never used a second time. A null pointer is `none`.

* `alloc`, `modify`, `free`: a new object, a store into one, and the end of one;
* `free_modify_alloc`: what has been allocated and freed again has left no trace.
-/

/-- The objects, and the next reference that is given out. -/
structure ObjectHeap (O : Type*) where
  obj : ℕ → Option O
  next : ℕ
  fresh : ∀ r, next ≤ r → obj r = none

namespace ObjectHeap

variable {O : Type*} (h : ObjectHeap O)

/-- A heap without objects. -/
def empty : ObjectHeap O := ⟨fun _ => none, 0, fun _ _ => rfl⟩

/-- Allocate an object, whose reference is `h.next`. -/
def alloc (o : O) : ObjectHeap O where
  obj := Function.update h.obj h.next (some o)
  next := h.next + 1
  fresh r hr := by
    rw [Function.update_of_ne (by omega)]
    exact h.fresh r (by omega)

/-- Store into an object. -/
def modify (r : ℕ) (f : O → O) : ObjectHeap O where
  obj := Function.update h.obj r ((h.obj r).map f)
  next := h.next
  fresh s hs := by
    by_cases hsr : s = r
    · subst hsr
      rw [Function.update_self, h.fresh s hs, Option.map_none]
    · rw [Function.update_of_ne hsr]
      exact h.fresh s hs

/-- Free the object, if there is one. -/
def free : Option ℕ → ObjectHeap O
  | none => h
  | some r => {
      obj := Function.update h.obj r none
      next := h.next
      fresh := fun s hs => by
        by_cases hsr : s = r
        · subst hsr
          rw [Function.update_self]
        · rw [Function.update_of_ne hsr]
          exact h.fresh s hs }

variable {h} {o : O} {f : O → O} {r s : ℕ}

@[simp]
theorem alloc_next : (h.alloc o).next = h.next + 1 := rfl

@[simp]
theorem modify_next : (h.modify r f).next = h.next := rfl

@[simp]
theorem free_none : h.free none = h := rfl

@[simp]
theorem alloc_obj_self : (h.alloc o).obj h.next = some o := Function.update_self ..

theorem alloc_obj_of_ne (hr : r ≠ h.next) : (h.alloc o).obj r = h.obj r :=
  Function.update_of_ne hr ..

theorem alloc_obj_of_lt (hr : r < h.next) : (h.alloc o).obj r = h.obj r :=
  alloc_obj_of_ne (Nat.ne_of_lt hr)

@[simp]
theorem modify_obj_self : (h.modify r f).obj r = (h.obj r).map f := Function.update_self ..

theorem modify_obj_of_ne (hs : s ≠ r) : (h.modify r f).obj s = h.obj s :=
  Function.update_of_ne hs ..

/-- What has been allocated, stored into and freed has left no trace. -/
theorem free_modify_alloc :
    (((h.alloc o).modify h.next f).free (some h.next)).obj = h.obj := by
  funext r
  by_cases hr : r = h.next
  · subst hr
    rw [h.fresh _ (Nat.le_refl _)]
    exact Function.update_self ..
  · calc
      _ = ((h.alloc o).modify h.next f).obj r := Function.update_of_ne hr ..
      _ = (h.alloc o).obj r := modify_obj_of_ne hr
      _ = h.obj r := alloc_obj_of_ne hr

end ObjectHeap
