import Mathlib.Data.List.TakeWhile
import Mathlib.Logic.Function.Basic
import GeekOS.Library.Result

/-!
# Strings in memory

A block is the cells that a pointer may be moved over; an access to any other cell fails. A string
goes from some cell on up to a terminator.

* `load`, `store`: the accesses, and `write`: what a row of stores leaves;
* `IsString`: which string stands from a cell on, and `IsString.drop`: what remains of it behind
  some of its characters;
* `isString_write`, `isString_ofList`: strings that have been written, and a string as a block of
  its own.
-/

namespace CString

open Result

variable {α : Type} {ε : Type}

/-- The cells of a block. -/
abbrev Block (α : Type) := ℕ → Option α

/-- Read a cell. -/
def load (e : ε) (obj : Block α) (i : ℕ) : Except ε α :=
  match obj i with
  | some a => .ok a
  | none => .error e

/-- Store into a cell. -/
def store (e : ε) (obj : Block α) (i : ℕ) (a : α) : Except ε (Block α) :=
  match obj i with
  | some _ => .ok (Function.update obj i (some a))
  | none => .error e

/-- The block once these have been stored, from the cell `i` on. -/
def write (obj : Block α) : ℕ → List α → Block α
  | _, [] => obj
  | i, a :: s => write (Function.update obj i (some a)) (i + 1) s

/-- The cells from `i` on, as many as these, can be stored into. -/
def Room (obj : Block α) (i n : ℕ) : Prop :=
  ∀ k < n, (obj (i + k)).isSome

/-- From the cell `p` on stand these characters, and the terminator `z` behind them. -/
inductive IsString (z : α) (obj : Block α) : ℕ → List α → Prop
  | nil {p : ℕ} : obj p = some z → IsString z obj p []
  | cons {p : ℕ} {a : α} {s : List α} :
      obj p = some a → a ≠ z → IsString z obj (p + 1) s → IsString z obj p (a :: s)

/-- A string as a block of its own. -/
def ofList (z : α) (s : List α) : Block α := fun i => (s ++ [z])[i]?

variable {e : ε} {z a : α} {obj : Block α} {i k n p : ℕ} {s t : List α}

theorem load_eq (h : obj i = some a) : load e obj i = .ok a := by rw [load, h]

/-! ## Rows of stores -/

theorem store_eq (h : Room obj i (n + 1)) (a : α) :
    store e obj i a = .ok (Function.update obj i (some a)) := by
  obtain ⟨b, hb⟩ := Option.isSome_iff_exists.mp (h 0 n.succ_pos)
  rw [Nat.add_zero] at hb
  rw [store, hb]

/-- A store leaves as much room behind its cell. -/
theorem Room.update (h : Room obj i (n + 1)) :
    Room (Function.update obj i (some a)) (i + 1) n := by
  intro k hk
  rw [Function.update_of_ne (by omega), Nat.add_assoc, Nat.add_comm 1]
  exact h (k + 1) (by omega)

theorem Room.mono (h : Room obj i n) (hk : k ≤ n) : Room obj i k :=
  fun j hj => h j (Nat.lt_of_lt_of_le hj hk)

@[simp]
theorem write_nil : write obj i [] = obj := rfl

theorem write_append :
    write obj i (s ++ t) = write (write obj i s) (i + s.length) t := by
  induction s generalizing obj i with
  | nil => rfl
  | cons a s ih =>
    rw [List.cons_append, write, ih, write, List.length_cons, Nat.add_comm s.length,
      ← Nat.add_assoc]

/-- The cells in front of the row are not stored into. -/
theorem write_of_lt (h : k < i) : write obj i s k = obj k := by
  induction s generalizing obj i with
  | nil => rfl
  | cons a s ih => rw [write, ih (by omega), Function.update_of_ne (by omega)]

/-- A block has the same cells after a row of stores into them. -/
theorem isSome_write (h : Room obj i s.length) : (write obj i s k).isSome = (obj k).isSome := by
  induction s generalizing obj i with
  | nil => rfl
  | cons a s ih =>
    rw [write, ih h.update]
    -- a cell that has been stored into was one before
    by_cases hk : k = i
    · have hi := h 0 (Nat.succ_pos _)
      rw [Nat.add_zero] at hi
      rw [hk, Function.update_self, hi]
      rfl
    · rw [Function.update_of_ne hk]

/-! ## Strings -/

/-- Behind some of its characters the rest of the string stands. -/
theorem IsString.drop (h : IsString z obj p (s ++ t)) : IsString z obj (p + s.length) t := by
  induction s generalizing p with
  | nil => exact h
  | cons a s ih =>
    cases h with
    | cons _ _ h =>
      have hrest := ih h
      rwa [List.length_cons, Nat.add_comm s.length, ← Nat.add_assoc]

/-- A string that has been written, with its terminator. -/
theorem isString_write (hz : z ∉ s) : IsString z (write obj i (s ++ [z])) i s := by
  induction s generalizing obj i with
  | nil =>
    refine .nil ?_
    rw [List.nil_append, write, write_nil, Function.update_self]
  | cons a s ih =>
    obtain ⟨ha, hs⟩ := not_or.mp (mt List.mem_cons.mpr hz)
    -- the stores behind the first one leave it alone
    refine .cons ?_ (Ne.symm ha) (ih hs)
    rw [List.cons_append, write, write_of_lt (Nat.lt_succ_self i), Function.update_self]

theorem isString_ofList (hz : z ∉ s) : IsString z (ofList z s) 0 s := by
  -- from each of its characters on
  have hfrom : ∀ front back, s = front ++ back → IsString z (ofList z s) front.length back := by
    intro front back
    induction back generalizing front with
    | nil =>
      rintro rfl
      exact .nil (by simp [ofList])
    | cons a back ih =>
      rintro rfl
      have hrest := ih (front ++ [a]) (by simp)
      rw [List.length_append] at hrest
      refine .cons (by simp [ofList]) (fun ha => hz (by simp [ha])) hrest
  exact hfrom [] s rfl

end CString
