import GeekOS.Library.CString
import GeekOS.Vfs.Path

/-!
# The string functions

`string.c` on memory: `memcpy`, `strnlen`, `strncmp` and `strncpy`, one character after the other. A
pointer is a block and the index of a cell of it; an access outside of the block is the failure `e`.

* `strnlen_eq`, `strncmp_eq`: on strings they compute what `strnlen` and `strncmp` of the file
  system's names do;
* `memcpy_eq`, `strncpy_eq`: what they store, and that they store it inside their destination;
* `holds_strncpy`: the string that `strncpy` leaves, cut off at the limit.
-/

namespace GeekOS.Strings

open CString Result
open Vfs (Str)

/-- `'\0'`. -/
def nul : Char := Char.ofNat 0

/-- The pointer points to this string. -/
abbrev Holds (s : Block Char) (p : ℕ) (x : Str) : Prop := IsString nul s p (x.map Subtype.val)

/-- A string as a block of its own. -/
def nameBlock (x : Str) : Block Char := ofList nul (x.map Subtype.val)

/-- So many characters that `mem_alloc` has returned, whatever it left in them. -/
def memAlloc (size : ℕ) (fresh : ℕ → Char) : Block Char :=
  fun i => if i < size then some (fresh i) else none

section Routines

variable {ε : Type} (e : ε)

/-- `memcpy`. -/
def memcpy (dst : Block Char) (d : ℕ) (src : Block Char) (s : ℕ) : ℕ → Except ε (Block Char)
  | 0 => pure dst
  | n + 1 => do
      let c ← load e src s
      let dst ← store e dst d c
      memcpy dst (d + 1) src (s + 1) n

/-- The loop of `strnlen`, with `len` characters counted and so many that still may be. -/
def strnlenFrom (s : Block Char) (p len : ℕ) : ℕ → Except ε ℕ
  | 0 => pure len
  | n + 1 => do
      let c ← load e s p
      if c ≠ nul then strnlenFrom s (p + 1) (len + 1) n else pure len

/-- `strnlen`. -/
def strnlen (s : Block Char) (p maxlen : ℕ) : Except ε ℕ := strnlenFrom e s p 0 maxlen

/-- `strncmp`. A `char` is signed in the source: where a character above 127 is compared, only whether
the result is zero is the same. -/
def strncmp (s₁ : Block Char) (p₁ : ℕ) (s₂ : Block Char) (p₂ : ℕ) : ℕ → Except ε ℤ
  | 0 => pure 0
  | limit + 1 => do
      let c ← load e s₁ p₁
      let d ← load e s₂ p₂
      let cmp : ℤ := c.toNat - d.toNat
      -- behind a terminator nothing is read
      if cmp ≠ 0 ∨ c = nul ∨ d = nul then pure cmp
      else strncmp s₁ (p₁ + 1) s₂ (p₂ + 1) limit

/-- `strncpy`. The test of the character comes before that of the limit. -/
def strncpy (dest : Block Char) (d : ℕ) (src : Block Char) (s : ℕ) :
    ℕ → Except ε (Block Char)
  | 0 => do
      -- the character is read though nothing is copied any more
      let _ ← load e src s
      pure dest
  | limit + 1 => do
      let c ← load e src s
      if c ≠ nul then do
        let dest ← store e dest d c
        strncpy dest (d + 1) src (s + 1) limit
      else
        store e dest d nul

end Routines

variable {ε : Type} {e : ε} {s₁ s₂ src dst : Block Char} {p p₁ p₂ s d limit maxlen : ℕ} {x y : Str}

theorem nul_not_mem (x : Str) : nul ∉ x.map Subtype.val := by
  intro h
  obtain ⟨c, -, hc⟩ := List.mem_map.mp h
  exact c.2 (by rw [hc]; rfl)

theorem holds_nameBlock (x : Str) : Holds (nameBlock x) 0 x := isString_ofList (nul_not_mem x)

theorem room_memAlloc (size : ℕ) (fresh : ℕ → Char) : Room (memAlloc size fresh) 0 size := by
  intro i hi
  rw [Nat.zero_add, memAlloc, if_pos hi]
  rfl

/-- `memcpy` of the characters in front of the rest of a string. -/
theorem memcpy_eq {t : List Char} (h : IsString nul src s (x.map Subtype.val ++ t))
    (hroom : Room dst d x.length) :
    memcpy e dst d src s x.length = .ok (write dst d (x.map Subtype.val)) := by
  induction x generalizing dst d s with
  | nil => rfl
  | cons c x ih =>
    cases h with
    | cons hc _ h =>
      rw [List.length_cons, memcpy, load_eq hc, ok_bind, store_eq hroom, ok_bind,
        ih h hroom.update]
      rfl

theorem strnlenFrom_eq (h : Holds s₁ p x) (len : ℕ) :
    strnlenFrom e s₁ p len maxlen = .ok (len + Vfs.strnlen x maxlen) := by
  induction maxlen generalizing p x len with
  | zero => rw [strnlenFrom, Vfs.strnlen, Nat.min_zero]; rfl
  | succ n ih =>
    rw [strnlenFrom]
    cases x with
    | nil =>
      cases h with
      | nil hz =>
        rw [load_eq hz, ok_bind, if_neg (by simp)]
        rfl
    | cons c x =>
      cases h with
      | cons hc hne h =>
        rw [load_eq hc, ok_bind, if_pos hne, ih h, Vfs.strnlen, Vfs.strnlen, List.length_cons,
          Nat.add_min_add_right]
        rw [Nat.add_assoc, Nat.add_comm 1]

theorem strnlen_eq (h : Holds s₁ p x) : strnlen e s₁ p maxlen = .ok (Vfs.strnlen x maxlen) := by
  rw [strnlen, strnlenFrom_eq h, Nat.zero_add]

theorem strncmp_eq (h₁ : Holds s₁ p₁ x) (h₂ : Holds s₂ p₂ y) :
    strncmp e s₁ p₁ s₂ p₂ limit = .ok (Vfs.strncmp x y limit) := by
  have hnul : (nul.toNat : ℤ) = 0 := rfl
  induction limit generalizing p₁ p₂ x y with
  | zero => rfl
  | succ n ih =>
    rw [strncmp]
    cases x with
    | nil =>
      cases h₁ with
      | nil hz =>
        rw [load_eq hz, ok_bind]
        cases y with
        | nil =>
          cases h₂ with
          | nil hz' =>
            rw [load_eq hz', ok_bind, if_pos (.inr (.inl rfl))]
            rfl
        | cons d y =>
          cases h₂ with
          | cons hd =>
            rw [load_eq hd, ok_bind, if_pos (.inr (.inl rfl)), hnul, Int.zero_sub]
            rfl
    | cons c x =>
      cases h₁ with
      | cons hc hc₀ h₁ =>
        rw [load_eq hc, ok_bind]
        cases y with
        | nil =>
          cases h₂ with
          | nil hz =>
            rw [load_eq hz, ok_bind, if_pos (.inr (.inr rfl)), hnul, Int.sub_zero]
            rfl
        | cons d y =>
          cases h₂ with
          | cons hd hd₀ h₂ =>
            rw [load_eq hd, ok_bind, Vfs.strncmp, List.take_succ_cons, List.take_succ_cons,
              Vfs.strcmp]
            -- the first characters that differ decide
            by_cases hcd : c = d
            · subst hcd
              rw [if_pos rfl, if_neg (by simp [hc₀]), ih h₁ h₂]
              rfl
            · have hne : c.1.toNat ≠ d.1.toNat := mt Vfs.Letter.toNat_inj hcd
              rw [if_neg hcd, if_pos (.inl (by omega))]
              rfl

/-- `strncpy` stores the characters that the limit allows, with the terminator if it allows it
too. -/
theorem strncpy_eq (h : Holds src s x) (hroom : Room dst d limit) :
    strncpy e dst d src s limit =
      .ok (write dst d ((x.map Subtype.val ++ [nul]).take limit)) := by
  induction limit generalizing dst d s x with
  | zero =>
    cases x with
    | nil =>
      cases h with
      | nil hz => rw [strncpy, load_eq hz]; rfl
    | cons c x =>
      cases h with
      | cons hc => rw [strncpy, load_eq hc]; rfl
  | succ n ih =>
    rw [strncpy]
    cases x with
    | nil =>
      cases h with
      | nil hz =>
        rw [load_eq hz, ok_bind, if_neg (by simp), store_eq hroom, List.map_nil, List.nil_append,
          List.take_succ_cons, List.take_nil]
        rfl
    | cons c x =>
      cases h with
      | cons hc hne h =>
        rw [load_eq hc, ok_bind, if_pos hne, store_eq hroom, ok_bind, ih h hroom.update]
        rfl

/-- What `strncpy` has stored is a string once the character behind the limit is a terminator. -/
theorem holds_strncpy :
    Holds (Function.update (write dst d ((x.map Subtype.val ++ [nul]).take limit)) (d + limit)
      (some nul)) d (x.take limit) := by
  induction limit generalizing dst d x with
  | zero => exact .nil (by rw [Nat.add_zero, Function.update_self])
  | succ n ih =>
    cases x with
    | nil =>
      -- the string is shorter than the limit, and has been copied with its own terminator
      refine .nil ?_
      rw [List.map_nil, List.nil_append, List.take_succ_cons, List.take_nil, write, write_nil,
        Function.update_of_ne (by omega), Function.update_self]
    | cons c x =>
      refine .cons ?_ (fun hc => nul_not_mem [c] (by rw [← hc]; exact List.mem_cons_self)) ?_
      · rw [List.map_cons, List.cons_append, List.take_succ_cons, write,
          Function.update_of_ne (by omega), write_of_lt (by omega), Function.update_self]
      · rw [List.map_cons, List.cons_append, List.take_succ_cons, write, Nat.add_comm n,
          ← Nat.add_assoc]
        exact ih

end GeekOS.Strings
