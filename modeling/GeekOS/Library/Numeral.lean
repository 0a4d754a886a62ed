import Mathlib.Data.Nat.Digits.Lemmas

/-!
# Numerals

A number written with digits, the most significant one first, as it is printed.

* `numeral`, `fixed`: as many digits as needed, one for zero, and a fixed number of digits;
* `value`: the number that digits stand for;
* `value_numeral`, `numeral_value`: the numeral is the only one without leading zeroes.
-/

namespace Numeral

variable {b n k d : ℕ} {ds : List ℕ}

/-- The digits of a number, and one digit for zero. -/
def numeral (b n : ℕ) : List ℕ := if n = 0 then [0] else (Nat.digits b n).reverse

/-- The last `k` digits of a number, with leading zeroes. -/
def fixed (b : ℕ) : ℕ → ℕ → List ℕ
  | 0, _ => []
  | k + 1, n => fixed b k (n / b) ++ [n % b]

/-- The number that the digits stand for. -/
def value (b : ℕ) (ds : List ℕ) : ℕ := Nat.ofDigits b ds.reverse

/-- There is a digit, and the first one is zero only if it is the only one. -/
structure Canonical (ds : List ℕ) : Prop where
  nonempty : ds ≠ []
  leading : ds.head? = some 0 → ds = [0]

theorem numeral_of_lt (h : n < b) : numeral b n = [n] := by
  unfold numeral
  split
  next hn => rw [hn]
  next hn => rw [Nat.digits_of_lt b n hn h, List.reverse_singleton]

theorem numeral_of_le (hb : 1 < b) (h : b ≤ n) : numeral b n = numeral b (n / b) ++ [n % b] := by
  have hn : n ≠ 0 := by omega
  have hdiv : n / b ≠ 0 := (Nat.div_pos h (by omega)).ne'
  rw [numeral, numeral, if_neg hn, if_neg hdiv, Nat.digits_def' hb (Nat.pos_of_ne_zero hn),
    List.reverse_cons]

@[simp]
theorem value_numeral (b n : ℕ) : value b (numeral b n) = n := by
  unfold value numeral
  split
  next hn => simp [hn]
  next => rw [List.reverse_reverse, Nat.ofDigits_digits]

theorem numeral_lt (hb : 1 < b) (h : d ∈ numeral b n) : d < b := by
  unfold numeral at h
  split at h
  · rw [List.mem_singleton.mp h]
    omega
  · exact Nat.digits_lt_base hb (List.mem_reverse.mp h)

theorem numeral_canonical (b n : ℕ) : Canonical (numeral b n) := by
  unfold numeral
  split
  next => exact ⟨List.cons_ne_nil _ _, fun _ => rfl⟩
  next hn =>
    -- the most significant digit is not zero
    have hne : Nat.digits b n ≠ [] := Nat.digits_ne_nil_iff_ne_zero.mpr hn
    refine ⟨by simpa using hne, fun h => ?_⟩
    rw [List.head?_reverse, List.getLast?_eq_getLast_of_ne_nil hne, Option.some.injEq] at h
    exact absurd h (Nat.getLast_digit_ne_zero b hn)

theorem numeral_length_le (hb : 1 < b) (hk : 0 < k) (h : n < b ^ k) :
    (numeral b n).length ≤ k := by
  unfold numeral
  split
  next => exact hk
  next =>
    rw [List.length_reverse]
    exact (Nat.digits_length_le_iff hb n).mpr h

/-- There is no other numeral without leading zeroes. -/
theorem numeral_value (hb : 1 < b) (hds : Canonical ds) (hlt : ∀ d ∈ ds, d < b) :
    numeral b (value b ds) = ds := by
  unfold numeral value
  -- only the digits of zero begin with a zero
  by_cases hlast : ds.head? = some 0
  · rw [hds.leading hlast]
    rfl
  · have hdigits : Nat.digits b (Nat.ofDigits b ds.reverse) = ds.reverse := by
      refine Nat.digits_ofDigits b hb _ (fun d hd => hlt d (List.mem_reverse.mp hd)) fun hne hzero => ?_
      refine hlast ?_
      rw [← List.getLast?_reverse, List.getLast?_eq_getLast_of_ne_nil hne, hzero]
    split
    next hzero =>
      rw [hzero, Nat.digits_zero] at hdigits
      exact absurd (List.reverse_eq_nil_iff.mp hdigits.symm) hds.nonempty
    next => rw [hdigits, List.reverse_reverse]

theorem fixed_length (b k n : ℕ) : (fixed b k n).length = k := by
  induction k generalizing n with
  | zero => rfl
  | succ k ih => rw [fixed, List.length_append, ih, List.length_singleton]

theorem fixed_lt (hb : 0 < b) (h : d ∈ fixed b k n) : d < b := by
  induction k generalizing n with
  | zero => cases h
  | succ k ih =>
    rcases List.mem_append.mp h with h | h
    · exact ih h
    · rw [List.mem_singleton.mp h]
      exact Nat.mod_lt _ hb

theorem value_fixed (h : n < b ^ k) : value b (fixed b k n) = n := by
  induction k generalizing n with
  | zero =>
    rw [Nat.pow_zero, Nat.lt_one_iff] at h
    rw [h]
    rfl
  | succ k ih =>
    have hdiv : n / b < b ^ k := by
      refine Nat.div_lt_of_lt_mul ?_
      rwa [Nat.mul_comm, ← Nat.pow_succ]
    have hrest := ih hdiv
    unfold value at hrest ⊢
    rw [fixed, List.reverse_append, List.reverse_singleton, List.singleton_append,
      Nat.ofDigits_cons, hrest]
    exact Nat.mod_add_div n b

end Numeral
