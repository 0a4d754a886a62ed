import Mathlib.Data.List.Basic
import Mathlib.Logic.Function.Basic
import Mathlib.Tactic.SplitIfs

/-!
# Ring buffers

A ring of `n` entries from which one takes at the head and to which one adds at the tail, each of
them going around. The ring is empty where head and tail are equal, so at least one entry is spare.

* `RingBuffer.contents`: the entries in it, the oldest one first;
* `RingBuffer.head_eq_tail_iff`, `RingBuffer.next_tail_eq_head_iff`: the tests for an empty and for
  a full ring;
* `RingBuffer.contents_push`, `RingBuffer.contents_pop`: adding to it and taking from it.
-/

/-- A ring of `n` entries. Head and tail are entries of it. -/
structure RingBuffer (α : Type*) (n : ℕ) where
  entries : ℕ → α
  head : ℕ
  tail : ℕ
  head_lt : head < n
  tail_lt : tail < n

namespace RingBuffer

variable {α : Type*} {n : ℕ} (r : RingBuffer α n)

/-- How many entries are in the ring. -/
def length : ℕ := (r.tail + n - r.head) % n

/-- The entries in the ring, from the head on. -/
def contents : List α := (List.range r.length).map fun i => r.entries ((r.head + i) % n)

/-- Add an entry at the tail. -/
def push (a : α) : RingBuffer α n where
  entries := Function.update r.entries r.tail a
  head := r.head
  tail := (r.tail + 1) % n
  head_lt := r.head_lt
  tail_lt := Nat.mod_lt _ (Nat.zero_lt_of_lt r.tail_lt)

/-- Take the entry at the head off. -/
def pop : RingBuffer α n where
  entries := r.entries
  head := (r.head + 1) % n
  tail := r.tail
  head_lt := Nat.mod_lt _ (Nat.zero_lt_of_lt r.head_lt)
  tail_lt := r.tail_lt

@[simp] theorem push_head (a : α) : (r.push a).head = r.head := rfl

@[simp] theorem push_tail (a : α) : (r.push a).tail = (r.tail + 1) % n := rfl

@[simp] theorem pop_head : r.pop.head = (r.head + 1) % n := rfl

@[simp] theorem pop_tail : r.pop.tail = r.tail := rfl

/-! ## Indices -/

/-- An index that has gone around at most once. -/
theorem mod_eq_ite {i : ℕ} (hi : i < 2 * n) : i % n = if i < n then i else i - n := by
  split_ifs with h
  · exact Nat.mod_eq_of_lt h
  · rw [Nat.mod_eq_sub_mod (Nat.le_of_not_lt h), Nat.mod_eq_of_lt (by omega)]

theorem length_eq :
    r.length = if r.head ≤ r.tail then r.tail - r.head else r.tail + n - r.head := by
  have hhead := r.head_lt
  have htail := r.tail_lt
  rw [length, mod_eq_ite (by omega)]
  split_ifs <;> omega

theorem length_lt : r.length < n := Nat.mod_lt _ (Nat.zero_lt_of_lt r.tail_lt)

@[simp]
theorem length_contents : r.contents.length = r.length := by simp [contents]

/-! ## The tests -/

theorem head_eq_tail_iff : r.head = r.tail ↔ r.contents = [] := by
  have hhead := r.head_lt
  have htail := r.tail_lt
  rw [← List.length_eq_zero_iff, length_contents, length_eq]
  split_ifs <;> omega

theorem next_tail_eq_head_iff : (r.tail + 1) % n = r.head ↔ r.length + 1 = n := by
  have hhead := r.head_lt
  have htail := r.tail_lt
  rw [length_eq, mod_eq_ite (by omega)]
  split_ifs <;> omega

/-! ## Adding and taking -/

theorem length_push (a : α) (h : r.length + 1 < n) : (r.push a).length = r.length + 1 := by
  have hhead := r.head_lt
  have htail := r.tail_lt
  rw [length_eq] at h
  rw [length_eq, length_eq, push_head, push_tail, mod_eq_ite (by omega)]
  split_ifs at h ⊢ <;> omega

/-- The entries that are already in the ring are not overwritten. -/
theorem head_add_ne_tail {i : ℕ} (hi : i < r.length) : (r.head + i) % n ≠ r.tail := by
  have hhead := r.head_lt
  have htail := r.tail_lt
  rw [length_eq] at hi
  rw [mod_eq_ite (by split_ifs at hi <;> omega)]
  split_ifs at hi ⊢ <;> omega

theorem head_add_length : (r.head + r.length) % n = r.tail := by
  have hhead := r.head_lt
  have htail := r.tail_lt
  rw [length_eq, mod_eq_ite (by split_ifs <;> omega)]
  split_ifs <;> omega

/-- What is added to a ring that is not full stands behind everything else. -/
theorem contents_push (a : α) (h : r.length + 1 < n) : (r.push a).contents = r.contents ++ [a] := by
  rw [contents, r.length_push a h, List.range_succ, List.map_append, List.map_singleton]
  -- the new entry is at the old tail, and no other one is
  have hnew : (r.push a).entries ((r.head + r.length) % n) = a := by
    rw [head_add_length]
    exact Function.update_self ..
  have hold : (List.range r.length).map (fun i => (r.push a).entries ((r.head + i) % n)) =
      r.contents := by
    refine List.map_congr_left fun i hi => ?_
    exact Function.update_of_ne (r.head_add_ne_tail (List.mem_range.mp hi)) ..
  exact congrArg₂ (· ++ [·]) hold hnew

/-- The entry at the head is the oldest one, and the others stay as they are. -/
theorem contents_pop (h : r.head ≠ r.tail) : r.contents = r.entries r.head :: r.pop.contents := by
  have hhead := r.head_lt
  have htail := r.tail_lt
  -- the head does not pass the tail
  have hlength : r.length = r.pop.length + 1 := by
    rw [length_eq, length_eq, pop_head, pop_tail, mod_eq_ite (by omega)]
    split_ifs <;> omega
  rw [contents, contents, hlength, List.range_succ_eq_map, List.map_cons, List.map_map]
  refine congrArg₂ List.cons ?_ (List.map_congr_left fun i _ => ?_)
  · rw [Nat.add_zero, Nat.mod_eq_of_lt hhead]
  · -- one entry behind the head is the same as from the next head on
    have hindex : (r.head + (i + 1)) % n = ((r.head + 1) % n + i) % n := by
      rw [Nat.mod_add_mod, Nat.add_assoc, Nat.add_comm 1 i]
    exact congrArg r.entries hindex

end RingBuffer
