import Mathlib.Tactic.Ring
import GeekOS.Library.Buffer

/-!
# Words in memory

A memory is a byte for each address. A word is a row of bytes with the lowest one first.

* `bytes`, `ofBytes`: a number as such a row, and back;
* `load`, `store`: a word of `k` bytes is read and is stored;
* `load_store_self`, `load_store_of_disjoint`: what is read after a store, at its address and apart
  from it;
* `store_of_disjoint`: the bytes that a store leaves alone.
-/

namespace Words

/-- A byte for each address. -/
abbrev Memory := ℕ → UInt8

/-- The lowest `k` bytes of a number, the lowest of them first. -/
def bytes : ℕ → ℕ → List UInt8
  | 0, _ => []
  | k + 1, v => UInt8.ofNat v :: bytes k (v / 256)

/-- The number that a row of bytes stands for. -/
def ofBytes : List UInt8 → ℕ
  | [] => 0
  | b :: l => b.toNat + 256 * ofBytes l

/-- The word of `k` bytes at the address `a`. -/
def load (k : ℕ) (m : Memory) (a : ℕ) : ℕ := ofBytes ((List.range' a k).map m)

/-- The memory after a word of `k` bytes has been stored at `a`. -/
def store (k : ℕ) (m : Memory) (a v : ℕ) : Memory := Buffer.writeAt m a (bytes k v)

variable {m m' : Memory} {a b i j k v : ℕ}

@[simp]
theorem bytes_length (k v : ℕ) : (bytes k v).length = k := by
  induction k generalizing v with
  | zero => rfl
  | succ k ih => rw [bytes, List.length_cons, ih]

/-- A number is read back from its lowest bytes up to their width. -/
theorem ofBytes_bytes (k v : ℕ) : ofBytes (bytes k v) = v % 256 ^ k := by
  induction k generalizing v with
  | zero => rw [pow_zero, Nat.mod_one, bytes, ofBytes]
  | succ k ih =>
    rw [bytes, ofBytes, ih, UInt8.toNat_ofNat', pow_succ' 256 k, Nat.mod_mul]

theorem ofBytes_lt (l : List UInt8) : ofBytes l < 256 ^ l.length := by
  induction l with
  | nil => simp [ofBytes]
  | cons b l ih =>
    have hb : b.toNat < 256 := b.toNat_lt
    rw [ofBytes, List.length_cons, pow_succ']
    omega

theorem load_lt (k : ℕ) (m : Memory) (a : ℕ) : load k m a < 256 ^ k := by
  simpa [load] using ofBytes_lt ((List.range' a k).map m)

/-- A word depends on its own bytes only. -/
theorem load_congr (h : ∀ c, a ≤ c → c < a + k → m c = m' c) : load k m a = load k m' a := by
  rw [load, load]
  congr 1
  apply List.map_congr_left
  intro c hc
  obtain ⟨hle, hlt⟩ := List.mem_range'_1.mp hc
  exact h c hle hlt

/-- A store leaves alone the bytes outside of its word. -/
theorem store_of_disjoint (h : b < a ∨ a + k ≤ b) : store k m a v b = m b := by
  rw [store, Buffer.writeAt_apply]
  split
  · rw [List.getElem?_eq_none (by rw [bytes_length]; omega), Option.getD_none]
  · rfl

/-- The word that has been stored. -/
theorem load_store_self (k : ℕ) (m : Memory) (a v : ℕ) :
    load k (store k m a v) a = v % 256 ^ k := by
  have hrow : (List.range' a k).map (store k m a v) = bytes k v := by
    apply List.ext_getElem
    · simp
    · intro i hi _
      have hik : i < (bytes k v).length := by simpa using hi
      rw [List.getElem_map, List.getElem_range', Nat.one_mul, store, Buffer.writeAt_apply,
        if_pos (Nat.le_add_right a i), Nat.add_sub_cancel_left, List.getElem?_eq_getElem hik,
        Option.getD_some]
  rw [load, hrow, ofBytes_bytes]

/-- A store does not change a word that shares no byte with its own. -/
theorem load_store_of_disjoint (h : b + j ≤ a ∨ a + k ≤ b) :
    load j (store k m a v) b = load j m b := by
  apply load_congr
  intro c hle hlt
  apply store_of_disjoint
  omega

end Words
