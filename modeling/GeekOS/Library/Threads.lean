import Mathlib.Algebra.BigOperators.Group.Finset.Basic
import Mathlib.Algebra.Order.BigOperators.Group.Finset
import GeekOS.Library.Result

/-!
# Threads with control points and a mutex

Threads `T` run one program over a shared state; `pc : T → ρ` tells where each of them is. A
mutex is the thread that has locked it, if any.

* `sum_update`: what a sum over the threads becomes when one of them moves;
* `Ready`, `lock`, `unlock`: the mutex, with the assertions that its owner does not lock it again
  and that nobody else unlocks it;
* `Exclusive`: the owner is the one thread that is in a section of the program, as on one processor
  the thread that has disabled the interrupts.
-/

namespace Threads

open Result

/-! ## Sums over the threads -/

section Sum

variable {T ρ : Type*} [DecidableEq T] [Fintype T] (w : ρ → ℕ) (pc : T → ρ) (t : T)

/-- When a thread moves from `pc t` to `p`, a sum over the threads loses the weight of the one
point and gains that of the other. -/
theorem sum_update (p : ρ) :
    ∑ u, w (Function.update pc t p u) + w (pc t) = ∑ u, w (pc u) + w p := by
  rw [← Finset.add_sum_erase _ _ (Finset.mem_univ t),
    ← Finset.add_sum_erase Finset.univ (fun u => w (pc u)) (Finset.mem_univ t)]
  have hrest : ∑ u ∈ Finset.univ.erase t, w (Function.update pc t p u) =
      ∑ u ∈ Finset.univ.erase t, w (pc u) := by
    refine Finset.sum_congr rfl fun u hu => ?_
    rw [Function.update_of_ne (Finset.ne_of_mem_erase hu)]
  rw [hrest, Function.update_self]
  omega

omit [DecidableEq T] in
/-- A thread's own weight is part of the sum. -/
theorem le_sum : w (pc t) ≤ ∑ u, w (pc u) :=
  Finset.single_le_sum (f := fun u => w (pc u)) (fun _ _ => Nat.zero_le _) (Finset.mem_univ t)

end Sum

/-! ## A mutex -/

section Mutex

variable {T ε : Type} [DecidableEq T]

/-- A thread that comes to lock the mutex does not have to wait for it. -/
def Ready (t : T) (owner : Option T) : Prop :=
  owner = none ∨ owner = some t

instance (t : T) (owner : Option T) : Decidable (Ready t owner) :=
  inferInstanceAs (Decidable (_ ∨ _))

/-- `t` locks the mutex, which it must not have locked already. -/
def lock (e : ε) (t : T) (owner : Option T) : Except ε (Option T) := do
  require (owner ≠ some t) e
  pure (some t)

/-- `t` unlocks the mutex, which it must have locked. -/
def unlock (e : ε) (t : T) (owner : Option T) : Except ε (Option T) := do
  require (owner = some t) e
  pure none

variable {e : ε} {t : T} {owner owner' : Option T}

@[simp]
theorem lock_eq_ok : lock e t owner = .ok owner' ↔ owner ≠ some t ∧ owner' = some t := by
  rw [lock, bind_eq_ok]
  simp [@eq_comm _ owner' (some t)]

@[simp]
theorem unlock_eq_ok : unlock e t owner = .ok owner' ↔ owner = some t ∧ owner' = none := by
  rw [unlock, bind_eq_ok]
  simp [@eq_comm _ owner' none]

@[simp]
theorem lock_none : lock e t none = .ok (some t) := by
  simp

@[simp]
theorem unlock_some : unlock e t (some t) = .ok none := by
  simp

end Mutex

/-! ## Sections of one thread -/

section Sections

variable {T : Type} {ρ : Type*} [DecidableEq T] {In : ρ → Prop} [DecidablePred In] {pc : T → ρ}
  {owner : Option T} {t u : T}

/-- The thread that is in a section, if any, is the owner. -/
def Exclusive (In : ρ → Prop) (pc : T → ρ) (owner : Option T) : Prop :=
  ∀ t, In (pc t) ↔ owner = some t

/-- Who owns the processor when `t` has come to the point `p`. -/
def ownerAt (In : ρ → Prop) [DecidablePred In] (t : T) (p : ρ) : Option T :=
  if In p then some t else none

omit [DecidableEq T] in
theorem ready_ownerAt (t : T) (p : ρ) : Ready t (ownerAt In t p) := by
  unfold ownerAt
  split
  · exact .inr rfl
  · exact .inl rfl

omit [DecidableEq T] [DecidablePred In] in
theorem Exclusive.eq (h : Exclusive In pc owner) (ht : In (pc t)) (hu : In (pc u)) : t = u :=
  Option.some.inj (((h t).mp ht).symm.trans ((h u).mp hu))

/-- A step of a thread, while no other thread is in a section. -/
theorem Exclusive.update (h : Exclusive In pc owner) (hready : Ready t owner) (p : ρ) :
    Exclusive In (Function.update pc t p) (ownerAt In t p) := by
  intro u
  unfold ownerAt
  by_cases hut : u = t
  · subst hut
    rw [Function.update_self]
    split <;> simp [*]
  · have hout : ¬In (pc u) := by
      rw [h u]
      rcases hready with rfl | rfl
      · simp
      · simpa using Ne.symm hut
    rw [Function.update_of_ne hut]
    refine iff_of_false hout ?_
    split
    · simpa using Ne.symm hut
    · simp

omit [DecidableEq T] [DecidablePred In] in
/-- While a thread can run, no other thread is in a section. -/
theorem Exclusive.not_in (h : Exclusive In pc owner) (hready : Ready t owner) (hut : u ≠ t) :
    ¬In (pc u) := by
  rw [h u]
  rcases hready with rfl | rfl
  · simp
  · simpa using Ne.symm hut

end Sections

end Threads
