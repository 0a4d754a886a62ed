import Mathlib.Data.List.Nodup
import Mathlib.Data.Set.Function
import GeekOS.Library.Result

/-!
# Loops over addresses

`for (addr = start; addr < stop; addr += step)`, on machines whose addresses are wide enough for
the last round.

* `addresses`, `mem_addresses`: the addresses that the loop goes through;
* `forAddress`, `forAddress_eq`: the loop, with a body that may fail, and its rounds one by one;
* `forAddress_eq_foldl`: the loop with a body that does not fail;
* `forAddress_fill`: a loop that stores into one entry of a table in each round.
-/

namespace AddressLoop

open Result

/-- The addresses of the rounds. -/
def addresses (start stop step : ℕ) : List ℕ :=
  (List.range ((stop - start + (step - 1)) / step)).map fun k => start + k * step

/-- The loop, whose body gets the address of the round. -/
def forAddress {ε σ : Type} (start stop step : ℕ) (body : σ → ℕ → Except ε σ) (s : σ) :
    Except ε σ :=
  (addresses start stop step).foldlM body s

variable {start stop step a : ℕ}

/-- Behind the end there is no round. -/
theorem addresses_of_le (hstep : 0 < step) (h : stop ≤ start) : addresses start stop step = [] := by
  have hzero : (stop - start + (step - 1)) / step = 0 := Nat.div_eq_of_lt (by omega)
  rw [addresses, hzero]
  rfl

/-- A round, and the rounds from the next address on. -/
theorem addresses_of_lt (hstep : 0 < step) (h : start < stop) :
    addresses start stop step = start :: addresses (start + step) stop step := by
  have hrounds : (stop - start + (step - 1)) / step =
      (stop - (start + step) + (step - 1)) / step + 1 := by
    rcases Nat.lt_or_ge (start + step) stop with hlt | hge
    · rw [← Nat.add_div_right _ hstep]
      congr 1
      omega
    · rw [Nat.sub_eq_zero_of_le hge, Nat.zero_add, Nat.div_eq_of_lt (Nat.sub_one_lt hstep.ne'),
        Nat.div_eq_of_lt_le] <;> omega
  rw [addresses, hrounds, List.range_succ_eq_map, List.map_cons, List.map_map, addresses]
  congr 1
  · omega
  · refine List.map_congr_left fun k _ => ?_
    rw [Function.comp_apply, Nat.succ_mul]
    omega

theorem mem_addresses (hstep : 0 < step) :
    a ∈ addresses start stop step ↔ a < stop ∧ ∃ k, a = start + k * step := by
  rw [addresses, List.mem_map]
  constructor
  · rintro ⟨k, hk, rfl⟩
    have hlt := (Nat.lt_div_iff_mul_lt hstep).mp (List.mem_range.mp hk)
    exact ⟨by omega, k, rfl⟩
  · rintro ⟨hlt, k, rfl⟩
    have hk : k * step < stop - start + (step - 1) - (step - 1) := by
      omega
    exact ⟨k, List.mem_range.mpr ((Nat.lt_div_iff_mul_lt hstep).mpr hk), rfl⟩

theorem addresses_nodup (hstep : 0 < step) : (addresses start stop step).Nodup := by
  refine List.Nodup.map (fun j k hjk => ?_) List.nodup_range
  have hmul : j * step = k * step := by
    simpa using hjk
  exact Nat.eq_of_mul_eq_mul_right hstep hmul

section Loop

variable {ε σ : Type} {body : σ → ℕ → Except ε σ}

/-- The loop tests, goes through its body and comes to the next address. -/
theorem forAddress_eq (hstep : 0 < step) (s : σ) :
    forAddress start stop step body s =
      if start < stop then body s start >>= forAddress (start + step) stop step body else .ok s := by
  unfold forAddress
  split
  next h => rw [addresses_of_lt hstep h, List.foldlM_cons]
  next h =>
    rw [addresses_of_le hstep (Nat.le_of_not_lt h)]
    rfl

/-- A loop whose rounds do not fail. -/
theorem forAddress_eq_foldl {f : σ → ℕ → σ}
    (hbody : ∀ s, ∀ a ∈ addresses start stop step, body s a = .ok (f s a)) (s : σ) :
    forAddress start stop step body s = .ok ((addresses start stop step).foldl f s) := by
  rw [forAddress]
  generalize addresses start stop step = l at hbody ⊢
  induction l generalizing s with
  | nil => rfl
  | cons a l ih =>
    rw [List.foldlM_cons, hbody s a List.mem_cons_self, ok_bind, List.foldl_cons]
    exact ih (f s a) fun s b hb => hbody s b (List.mem_cons_of_mem a hb)

variable {ι α : Type} [DecidableEq ι] (idx : ℕ → ι) (val : ℕ → α)

/-- Stores into different entries of a table, one after the other. -/
theorem foldl_update {l : List ℕ} (hnodup : (l.map idx).Nodup) (table : ι → α) :
    (∀ a ∈ l, l.foldl (fun t a => Function.update t (idx a) (val a)) table (idx a) = val a) ∧
      ∀ i ∉ l.map idx, l.foldl (fun t a => Function.update t (idx a) (val a)) table i = table i := by
  induction l generalizing table with
  | nil => simp
  | cons a l ih =>
    obtain ⟨ha, hl⟩ := List.nodup_cons.mp hnodup
    obtain ⟨hstored, hkept⟩ := ih hl (Function.update table (idx a) (val a))
    simp only [List.foldl_cons, List.map_cons]
    refine ⟨fun b hb => ?_, fun i hi => ?_⟩
    · rcases List.mem_cons.mp hb with rfl | hb
      · rw [hkept _ ha, Function.update_self]
      · exact hstored b hb
    · rw [hkept i (List.not_mem_of_not_mem_cons hi),
        Function.update_of_ne (List.ne_of_not_mem_cons hi)]

/-- A loop that stores into one entry of a table in each round, into different ones. -/
theorem forAddress_fill {body : (ι → α) → ℕ → Except ε (ι → α)}
    (hbody : ∀ t, ∀ a ∈ addresses start stop step, body t a = .ok (Function.update t (idx a) (val a)))
    (hstep : 0 < step) (hidx : Set.InjOn idx { a | a ∈ addresses start stop step })
    (table : ι → α) :
    ∃ t, forAddress start stop step body table = .ok t ∧
      (∀ a ∈ addresses start stop step, t (idx a) = val a) ∧
      ∀ i ∉ (addresses start stop step).map idx, t i = table i := by
  have hnodup : ((addresses start stop step).map idx).Nodup :=
    List.Nodup.map_on (fun a ha b hb hab => hidx ha hb hab) (addresses_nodup hstep)
  exact ⟨_, forAddress_eq_foldl hbody table, foldl_update idx val hnodup table⟩

end Loop

end AddressLoop
