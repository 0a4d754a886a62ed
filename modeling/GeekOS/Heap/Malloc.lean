import GeekOS.Library.Arena
import GeekOS.Library.Path
import GeekOS.Library.Words
import GeekOS.Memory.Regions

/-!
# `malloc` and `free`

The allocator of `malloc.c`, store by store. The heap is a part of the memory from `g_heapstart` to
`g_heapend`; up to `__brkval` it consists of chunks, each with its size in front of it, and the
chunks that have been freed are linked to each other through their own bytes, from `__flp` on.

A `size_t` and a pointer are numbers below `2 ^ 32`, and a null pointer is zero. The loops go for
`rounds` rounds at most; a loop that needs more of them has no result.

* `Heap.malloc`, `Heap.free`: the two functions;
* `Heap.setSz_mem`, `Heap.setNx_mem`: the bytes that a store leaves alone, and `Heap.sz_congr`,
  `Heap.next_congr`: the bytes that an entry is read from;
* `Heap.path_link`: the free list after the store to `fp2->nx` or to `__flp`.
-/

namespace GeekOS.Memory

open Arena LinkedList

/-- `sizeof(size_t)`. -/
def sizeofSize : ℕ := 4

/-- `sizeof(struct __freelist)`: a size and a pointer. -/
def sizeofFreelist : ℕ := 8

/-- The memory and the global variables of `malloc.c`. -/
structure Heap where
  mem : Words.Memory
  /-- `g_heapstart`. -/
  heapstart : ℕ
  /-- `g_heapend`. -/
  heapend : ℕ
  /-- `__brkval`. -/
  brkval : ℕ := 0
  /-- `__flp`. -/
  flp : ℕ := 0

namespace Heap

variable (h : Heap)

/-- `fp->sz`. -/
def sz (fp : ℕ) : ℕ := Words.load 4 h.mem fp

/-- `fp->nx`. -/
def nx (fp : ℕ) : ℕ := Words.load 4 h.mem (fp + sizeofSize)

/-- Store to `fp->sz`. -/
def setSz (fp v : ℕ) : Heap := { h with mem := Words.store 4 h.mem fp v }

/-- Store to `fp->nx`. -/
def setNx (fp v : ℕ) : Heap := { h with mem := Words.store 4 h.mem (fp + sizeofSize) v }

/-- `fp2->nx = v`, or `__flp = v` where there is no entry `fp2` in front. -/
def link (fp2 v : ℕ) : Heap := if fp2 ≠ 0 then h.setNx fp2 v else { h with flp := v }

/-- What the first loop of `malloc` ends with: an entry and the one in front of it, or the size of
the closest match. -/
inductive Walk
  | found (fp1 fp2 : ℕ)
  | closest (s : ℕ)
  deriving DecidableEq, Repr

/-- The size of the closest match so far, when an entry of size `size` has been seen. -/
def narrow (len s size : ℕ) : ℕ := if len < size ∧ (s = 0 ∨ size < s) then size else s

/-- The first loop of `malloc`, from the entry `fp1` on, which comes behind `fp2`. -/
def walkExact (len : ℕ) : ℕ → ℕ → ℕ → ℕ → Option Walk
  | 0, _, _, _ => none
  | n + 1, s, fp1, fp2 =>
      if fp1 = 0 then some (.closest s)
      else if h.sz fp1 = len then some (.found fp1 fp2)
      else walkExact len n (narrow len s (h.sz fp1)) (h.nx fp1) fp1

/-- The second loop of `malloc`: the first entry of size `s` and the one in front of it, if there
is one. -/
def walkSize (s : ℕ) : ℕ → ℕ → ℕ → Option (Option (ℕ × ℕ))
  | 0, _, _ => none
  | n + 1, fp1, fp2 =>
      if fp1 = 0 then some none
      else if h.sz fp1 = s then some (some (fp1, fp2))
      else walkSize s n (h.nx fp1) fp1

/-- Step 3 of `malloc`: a chunk at `__brkval`. -/
def extend (len : ℕ) : ℕ × Heap :=
  let h := if h.brkval = 0 then { h with brkval := h.heapstart } else h
  let avail := ulongSub h.heapend h.brkval
  if len ≤ avail ∧ ulong (len + sizeofSize) ≤ avail then
    let fp1 := h.brkval
    let h := { h with brkval := ulong (h.brkval + ulong (len + sizeofSize)) }
    (fp1 + sizeofSize, h.setSz fp1 len)
  else (0, h)

/-- `malloc`, with the address that it returns. -/
def malloc (rounds len : ℕ) : Option (ℕ × Heap) :=
  let len := if len < sizeofFreelist - sizeofSize then sizeofFreelist - sizeofSize else len
  match h.walkExact len rounds 0 h.flp 0 with
  | none => none
  | some (.found fp1 fp2) => some (fp1 + sizeofSize, h.link fp2 (h.nx fp1))
  | some (.closest s) =>
      if s ≠ 0 then
        -- a rest that is too small for an entry stays with the chunk
        let len := if ulongSub s len < sizeofFreelist then s else len
        match h.walkSize s rounds h.flp 0 with
        | none => none
        | some (some (fp1, fp2)) =>
            if len = s then some (fp1 + sizeofSize, h.link fp2 (h.nx fp1))
            else
              -- the upper part is handed out, so that the links stay as they are
              let s := ulongSub s len
              let fp2 := ulong (fp1 + s)
              some (fp2 + sizeofSize, (h.setSz fp2 len).setSz fp1 (ulongSub s sizeofSize))
        | some none => some (h.extend len)
      else some (h.extend len)

/-- The loop of `free`: the first entry that is not in front of `fpnew`, and the one in front of
it. -/
def walkAddress (fpnew : ℕ) : ℕ → ℕ → ℕ → Option (ℕ × ℕ)
  | 0, _, _ => none
  | n + 1, fp1, fp2 =>
      if fp1 ≠ 0 ∧ fp1 < fpnew then walkAddress fpnew n (h.nx fp1) fp1 else some (fp1, fp2)

/-- `fpnew` is linked to the entry `fp1` behind it, and becomes one chunk with it if they are
adjacent. -/
def mergeUpper (fpnew fp1 : ℕ) : Heap :=
  let h := h.setNx fpnew fp1
  if ulong (fpnew + sizeofSize + h.sz fpnew) = fp1 then
    let h := h.setSz fpnew (ulong (h.sz fpnew + ulong (h.sz fp1 + sizeofSize)))
    h.setNx fpnew (h.nx fp1)
  else h

/-- `fpnew` is linked behind the entry `fp2`, and becomes one chunk with it if they are adjacent. -/
def mergeLower (fpnew fp2 : ℕ) : Heap :=
  let h := h.setNx fp2 fpnew
  if ulong (fp2 + sizeofSize + h.sz fp2) = fpnew then
    let h := h.setSz fp2 (ulong (h.sz fp2 + ulong (h.sz fpnew + sizeofSize)))
    h.setNx fp2 (h.nx fpnew)
  else h

/-- `free`. -/
def free (rounds p : ℕ) : Option Heap :=
  if p = 0 then some h
  else
    let fpnew := ulongSub p sizeofSize
    let h := h.setNx fpnew 0
    if h.flp = 0 then some { h with flp := fpnew }
    else
      match h.walkAddress fpnew rounds h.flp 0 with
      | none => none
      | some (fp1, fp2) =>
          let h := if fp1 ≠ 0 then h.mergeUpper fpnew fp1 else h
          -- a new head of the list ends the function inside of the loop
          if fp1 ≠ 0 ∧ fp2 = 0 then some { h with flp := fpnew } else some (h.mergeLower fpnew fp2)

/-! ## Stores and entries -/

/-- A pointer, or none where it is null. -/
def ptr (p : ℕ) : Option ℕ := if p = 0 then none else some p

/-- The entry behind an entry. -/
def next (fp : ℕ) : Option ℕ := ptr (h.nx fp)

@[simp]
theorem ptr_zero : ptr 0 = none := rfl

theorem ptr_of_pos {p : ℕ} (hp : 0 < p) : ptr p = some p := if_neg hp.ne'

theorem ptr_eq_none {p : ℕ} : ptr p = none ↔ p = 0 := by
  unfold ptr
  split <;> simp [*]

theorem ptr_eq_some {p q : ℕ} : ptr p = some q ↔ p = q ∧ 0 < q := by
  unfold ptr
  split
  next hp =>
    subst hp
    simp only [reduceCtorEq, false_iff]
    omega
  next hp =>
    rw [Option.some.injEq]
    omega

theorem ptr_inj {p q : ℕ} (h : ptr p = ptr q) : p = q := by
  rcases Nat.eq_zero_or_pos q with rfl | hq
  · exact ptr_eq_none.mp h
  · rw [ptr_of_pos hq] at h
    exact (ptr_eq_some.mp h).1

variable {h} {h' : Heap} {fp v i a : ℕ}

theorem setSz_mem (hi : i < fp ∨ fp + 4 ≤ i) : (h.setSz fp v).mem i = h.mem i :=
  Words.store_of_disjoint hi

theorem setNx_mem (hi : i < fp + 4 ∨ fp + 8 ≤ i) : (h.setNx fp v).mem i = h.mem i :=
  Words.store_of_disjoint hi

theorem sz_setSz (hv : v < 2 ^ 32) : (h.setSz fp v).sz fp = v := by
  show Words.load 4 (Words.store 4 h.mem fp v) fp = v
  rw [Words.load_store_self]
  exact Nat.mod_eq_of_lt hv

theorem nx_setNx (hv : v < 2 ^ 32) : (h.setNx fp v).nx fp = v := by
  show Words.load 4 (Words.store 4 h.mem (fp + 4) v) (fp + 4) = v
  rw [Words.load_store_self]
  exact Nat.mod_eq_of_lt hv

theorem nx_lt (h : Heap) (fp : ℕ) : h.nx fp < 2 ^ 32 := Words.load_lt 4 h.mem (fp + sizeofSize)

/-- The size of an entry stands in its first four bytes. -/
theorem sz_congr (hmem : ∀ i, fp ≤ i → i < fp + 4 → h'.mem i = h.mem i) : h'.sz fp = h.sz fp :=
  Words.load_congr hmem

/-- Its link stands in the next four. -/
theorem nx_congr (hmem : ∀ i, fp + 4 ≤ i → i < fp + 8 → h'.mem i = h.mem i) :
    h'.nx fp = h.nx fp :=
  Words.load_congr hmem

theorem next_congr (hmem : ∀ i, fp + 4 ≤ i → i < fp + 8 → h'.mem i = h.mem i) :
    h'.next fp = h.next fp := by
  rw [next, next, nx_congr hmem]

theorem sz_setNx_self : (h.setNx fp v).sz fp = h.sz fp :=
  sz_congr fun _ _ _ => setNx_mem (by omega)

theorem link_heapstart : (h.link fp v).heapstart = h.heapstart := by
  unfold link
  split <;> rfl

theorem link_heapend : (h.link fp v).heapend = h.heapend := by
  unfold link
  split <;> rfl

theorem link_brkval : (h.link fp v).brkval = h.brkval := by
  unfold link
  split <;> rfl

theorem link_mem (hi : fp = 0 ∨ i < fp + 4 ∨ fp + 8 ≤ i) : (h.link fp v).mem i = h.mem i := by
  unfold link
  split
  next hfp => exact setNx_mem (hi.resolve_left hfp)
  · rfl

/-! ## The free list -/

/-- The entry at the end of a part of the list, and `fp2` where it has none. -/
def lastEntry (fp2 : ℕ) (l : List Block) : ℕ := (l.getLast?.map Block.addr).getD fp2

@[simp]
theorem lastEntry_nil {fp2 : ℕ} : lastEntry fp2 [] = fp2 := rfl

@[simp]
theorem lastEntry_concat {fp2 : ℕ} {l : List Block} {b : Block} :
    lastEntry fp2 (l ++ [b]) = b.addr := by
  simp [lastEntry]

theorem lastEntry_cons {fp2 : ℕ} {l : List Block} {b : Block} :
    lastEntry fp2 (b :: l) = lastEntry b.addr l := by
  rcases List.eq_nil_or_concat' l with rfl | ⟨front, c, rfl⟩
  · rfl
  · rw [← List.cons_append, lastEntry_concat, lastEntry_concat]

/-- The entries of the free list are eight bytes wide and share none of them. -/
def Apart (b c : Block) : Prop := b.addr + 8 ≤ c.addr ∨ c.addr + 8 ≤ b.addr

variable {l l₁ l₂ : List Block} {b c : Block} {q : Option ℕ}

/-- When the end of a part of the list is linked to `v`, the part leads there. -/
theorem path_link (hpath : Path h.next (ptr h.flp) (l.map Block.addr) q)
    (hapart : l.Pairwise Apart) (hpos : ∀ b ∈ l, 0 < b.addr) (hv : v < 2 ^ 32) :
    Path (h.link (lastEntry 0 l) v).next (ptr (h.link (lastEntry 0 l) v).flp) (l.map Block.addr)
      (ptr v) := by
  rcases List.eq_nil_or_concat' l with rfl | ⟨front, c, rfl⟩
  · rfl
  · have hc : c.addr ≠ 0 := (hpos c (by simp)).ne'
    rw [lastEntry_concat, link, if_pos hc]
    rw [List.map_append, List.map_singleton] at hpath ⊢
    refine hpath.redirect ?_ ?_
    · rw [next, nx_setNx hv]
    · intro n hn
      obtain ⟨b, hb, rfl⟩ := List.mem_map.mp hn
      have hbc := (List.pairwise_append.mp hapart).2.2 b hb c (by simp)
      apply next_congr
      intro i _ _
      apply setNx_mem
      unfold Apart at hbc
      omega

/-- A part of the list whose entries are apart from `fp`. -/
theorem path_link_of_apart {p : Option ℕ} (hpath : Path h.next p (l.map Block.addr) q)
    (hapart : ∀ b ∈ l, fp = 0 ∨ b.addr + 8 ≤ fp ∨ fp + 8 ≤ b.addr) :
    Path (h.link fp v).next p (l.map Block.addr) q := by
  refine hpath.congr ?_
  intro n hn
  obtain ⟨b, hb, rfl⟩ := List.mem_map.mp hn
  have hb := hapart b hb
  apply next_congr
  intro i _ _
  apply link_mem
  omega

end Heap

end GeekOS.Memory
