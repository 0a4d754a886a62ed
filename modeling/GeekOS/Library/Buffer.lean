import Mathlib.Data.List.Basic
import Mathlib.Logic.Function.Basic
import Mathlib.Tactic.Common

/-!
# Buffers

An array that a program fills from some index on.

* `writeAt`: the array after entries have been stored one behind the other;
* `swap`, `foldl_swap`: entries are turned around in place by exchanging them pairwise;
* `takeWhile_writeAt`: a string is read back up to its terminator.
-/

namespace Buffer

variable {α : Type*}

/-- The array after the entries have been stored from `p` on. -/
def writeAt (buf : ℕ → α) (p : ℕ) : List α → ℕ → α
  | [] => buf
  | a :: l => writeAt (Function.update buf p a) (p + 1) l

/-- Exchange two entries. -/
def swap (buf : ℕ → α) (i j : ℕ) : ℕ → α :=
  Function.update (Function.update buf i (buf j)) j (buf i)

variable {buf : ℕ → α} {p j : ℕ} {l l' : List α}

theorem writeAt_apply (buf : ℕ → α) (p : ℕ) (l : List α) (j : ℕ) :
    writeAt buf p l j = if p ≤ j then l[j - p]?.getD (buf j) else buf j := by
  induction l generalizing buf p with
  | nil => simp [writeAt]
  | cons a l ih =>
    rw [writeAt, ih]
    by_cases hj : j = p
    · subst hj
      rw [if_neg (Nat.not_succ_le_self j)]
      simp
    · rw [Function.update_of_ne hj]
      split_ifs with hnext hp hp
      · rw [show j - p = j - (p + 1) + 1 by omega, List.getElem?_cons_succ]
      · omega
      · omega
      · rfl

theorem writeAt_append (buf : ℕ → α) (p : ℕ) (l l' : List α) :
    writeAt buf p (l ++ l') = writeAt (writeAt buf p l) (p + l.length) l' := by
  induction l generalizing buf p with
  | nil => rfl
  | cons a l ih =>
    rw [List.cons_append, writeAt, ih, writeAt, List.length_cons]
    congr 1
    omega

theorem writeAt_singleton (buf : ℕ → α) (p : ℕ) (a : α) :
    writeAt buf p [a] = Function.update buf p a := rfl

/-- The entries that have been turned around after `k` exchanges. -/
theorem foldl_swap_apply {n k : ℕ} (hk : k ≤ n / 2) (buf : ℕ → α) (j : ℕ) :
    (List.range k).foldl (fun buf i => swap buf (p + i) (p + (n - (i + 1)))) buf j =
      if p ≤ j ∧ j < p + n ∧ (j < p + k ∨ p + n ≤ j + k) then buf (p + (n - (j - p + 1)))
      else buf j := by
  induction k generalizing j with
  | zero =>
    rw [List.range_zero, List.foldl_nil, if_neg (by omega)]
  | succ k ih =>
    rw [List.range_succ, List.foldl_append, List.foldl_cons, List.foldl_nil, swap]
    -- the two entries that come next are still where they were
    have hlow := ih (by omega) (p + k)
    have hhigh := ih (by omega) (p + (n - (k + 1)))
    rw [if_neg (by omega)] at hlow hhigh
    by_cases hj : j = p + (n - (k + 1))
    · rw [hj, Function.update_self, hlow, if_pos (by omega)]
      congr 1
      omega
    · rw [Function.update_of_ne hj]
      by_cases hj' : j = p + k
      · rw [hj', Function.update_self, hhigh, if_pos (by omega)]
        congr 1
        omega
      · rw [Function.update_of_ne hj', ih (by omega)]
        refine if_congr ?_ rfl rfl
        omega

/-- The entries of a list are turned around by exchanging the first half with the second one. -/
theorem foldl_swap (buf : ℕ → α) (p : ℕ) (l : List α) :
    (List.range (l.length / 2)).foldl (fun buf i => swap buf (p + i) (p + (l.length - (i + 1))))
      (writeAt buf p l) = writeAt buf p l.reverse := by
  funext j
  rw [foldl_swap_apply (Nat.le_refl _), writeAt_apply, writeAt_apply, writeAt_apply]
  by_cases hp : p ≤ j
  · by_cases hj : j < p + l.length
    · -- an entry inside of the list
      have hrev : l.reverse[j - p]? = l[l.length - (j - p + 1)]? := by
        rw [List.getElem?_reverse (by omega)]
        congr 1
        omega
      have hsome : l[l.length - (j - p + 1)]?.isSome := by
        simp only [isSome_getElem?]
        omega
      obtain ⟨a, ha⟩ := Option.isSome_iff_exists.mp hsome
      rw [if_pos hp, if_pos hp, hrev, ha]
      split_ifs with hturned hle
      · rw [Nat.add_sub_cancel_left, ha]
        rfl
      · exact absurd (Nat.le_add_right ..) hle
      · -- the entry in the middle stays where it is
        rw [show j - p = l.length - (j - p + 1) by omega, ha]
    · rw [if_neg (by omega), if_pos hp, if_pos hp, List.getElem?_eq_none (by omega),
        List.getElem?_eq_none (by rw [List.length_reverse]; omega)]
  · rw [if_neg (by omega), if_neg hp, if_neg hp]

/-- What has been stored up to a terminator is read back. -/
theorem takeWhile_writeAt [DecidableEq α] {z : α} {n : ℕ} (hz : z ∉ l) (hn : l.length < n)
    (buf : ℕ → α) (p : ℕ) :
    ((List.range' p n).map (writeAt buf p (l ++ [z]))).takeWhile (· ≠ z) = l := by
  induction l generalizing buf p n with
  | nil =>
    obtain ⟨n, rfl⟩ := Nat.exists_eq_succ_of_ne_zero (Nat.pos_iff_ne_zero.mp hn)
    simp [List.range'_succ, writeAt]
  | cons a l ih =>
    obtain ⟨n, rfl⟩ := Nat.exists_eq_succ_of_ne_zero (Nat.ne_zero_of_lt hn)
    obtain ⟨hza, hz⟩ := not_or.mp (mt List.mem_cons.mpr hz)
    have hfirst : writeAt buf p (a :: l ++ [z]) p = a := by
      simp [writeAt_apply]
    rw [List.range'_succ, List.map_cons, hfirst, List.takeWhile_cons_of_pos (by simpa using Ne.symm hza)]
    rw [List.length_cons] at hn
    exact congrArg (a :: ·) (ih hz (by omega) _ _)

end Buffer
