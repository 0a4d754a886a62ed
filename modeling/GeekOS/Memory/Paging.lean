import Mathlib.Tactic.NormNum
import GeekOS.Library.AddressLoop
import GeekOS.Memory.Layout

/-!
# The page tables of the kernel

`x86_vm.c`: the page directory that `vm_init_paging` sets up, and what the processor makes of it.

* `vmInitPaging`: a page table for the low 4 MB, in which page 0 is left out, and entries for pages
  of 4 MB as far as `mem_upper` goes;
* `Paging.translate`: the address that the processor comes to;
* `vmInitPaging_ok`, `translate_eq`: the entries of both tables, and what they translate;
* `identityMapped_iff`: for which sizes of memory all frames are mapped. The frame table counts the
  megabyte below `mem_upper`, and `vm_init_paging` does not.
-/

namespace GeekOS.Memory

open Result AddressLoop

/-- `VM_PT_SPAN`. -/
def vmPtSpan : ℕ := 1 <<< 22

/-- `VM_PAGE_DIR_INDEX`. -/
def vmPageDirIndex (vaddr : ℕ) : ℕ := (vaddr >>> 22) &&& 0x3ff

/-- `VM_PAGE_TABLE_INDEX`. -/
def vmPageTableIndex (vaddr : ℕ) : ℕ := (vaddr >>> 12) &&& 0x3ff

/-- `VM_PAGE_BASE_ADDR`. -/
def vmPageBaseAddr (addr : ℕ) : ℕ := addr >>> 12

/-- `IS_PT_SPAN_ALIGNED`. -/
def isPtSpanAligned (addr : ℕ) : Bool := addr &&& 0xFFC00000 = addr

/-- `VM_WRITE`. -/
def vmWrite : BitVec 4 := 1

/-- `VM_READ`. -/
def vmRead : BitVec 4 := 0

/-- `VM_EXEC`. -/
def vmExec : BitVec 4 := 0

/-- `VM_WRITE|VM_READ|VM_EXEC`, the flags of all entries. -/
def kernelFlags : BitVec 4 := vmWrite ||| vmRead ||| vmExec

/-- `pde_t`, of which the kernel sets these fields. -/
structure Pde where
  present : BitVec 1 := 0
  flags : BitVec 4 := 0
  pageSize : BitVec 1 := 0
  baseAddr : BitVec 20 := 0
  deriving DecidableEq, Repr

/-- `pte_t`. -/
structure Pte where
  present : BitVec 1 := 0
  flags : BitVec 4 := 0
  baseAddr : BitVec 20 := 0
  deriving DecidableEq, Repr

/-- `vm_set_pte`. -/
def vmSetPte (pgtab : ℕ → Pte) (flags : BitVec 4) (vaddr paddrOfFrame : ℕ) :
    Except Fault (ℕ → Pte) := do
  require (memIsPageAligned vaddr) .pageAligned
  require (memIsPageAligned paddrOfFrame) .pageAligned
  pure (Function.update pgtab (vmPageTableIndex vaddr)
    { present := 1, flags, baseAddr := BitVec.ofNat 20 (vmPageBaseAddr paddrOfFrame) })

/-- `vm_set_pde`. -/
def vmSetPde (pgdir : ℕ → Pde) (flags : BitVec 4) (vaddr paddrOfPagetable : ℕ) :
    Except Fault (ℕ → Pde) := do
  require (isPtSpanAligned vaddr) .ptSpanAligned
  require (memIsPageAligned paddrOfPagetable) .pageAligned
  pure (Function.update pgdir (vmPageDirIndex vaddr)
    { present := 1, flags, baseAddr := BitVec.ofNat 20 (vmPageBaseAddr paddrOfPagetable) })

/-- `vm_set_pde_4m`. -/
def vmSetPde4m (pgdir : ℕ → Pde) (flags : BitVec 4) (vaddr paddrOfFrame : ℕ) :
    Except Fault (ℕ → Pde) := do
  require (isPtSpanAligned vaddr) .ptSpanAligned
  require (memIsPageAligned paddrOfFrame) .pageAligned
  pure (Function.update pgdir (vmPageDirIndex vaddr)
    { present := 1, flags, pageSize := 1,
      baseAddr := BitVec.ofNat 20 (vmPageBaseAddr paddrOfFrame) })

/-- `s_kernel_pagedir`, and the page table that lies in the frame `pgtabFrame`. -/
structure Paging where
  pgdir : ℕ → Pde
  pgtabFrame : ℕ
  pgtab : ℕ → Pte

/-- The end of the memory that `vm_init_paging` maps, rounded to 2 GB. -/
def memMax (memUpper : ℕ) : ℕ :=
  let memMax := ulong (memUpper * 1024)
  if memMax > 2 ^ 31 then 2 ^ 31 else memMax

/-- `vm_init_paging`, where `mem_alloc_frame` has returned `pgtabFrame` for the page table. -/
def vmInitPaging (pgtabFrame memUpper : ℕ) : Except Fault Paging := do
  let pgtab ← forAddress pageSize vmPtSpan pageSize
    (fun pgtab paddr => vmSetPte pgtab kernelFlags paddr paddr) fun _ => {}
  let pgdir ← vmSetPde (fun _ => {}) kernelFlags 0 (pgtabFrame * pageSize)
  let pgdir ← forAddress vmPtSpan (memMax memUpper) vmPtSpan
    (fun pgdir paddr => vmSetPde4m pgdir kernelFlags paddr paddr) pgdir
  pure { pgdir, pgtabFrame, pgtab }

/-- What the processor translates a virtual address to, if it is mapped. -/
def Paging.translate (p : Paging) (vaddr : ℕ) : Option ℕ :=
  let pde := p.pgdir (vmPageDirIndex vaddr)
  if pde.present = 0 then none
  else if pde.pageSize = 1 then
    -- the lower half of the base address does not count
    some (pde.baseAddr.toNat / 1024 * vmPtSpan + vaddr % vmPtSpan)
  else if pde.baseAddr.toNat = p.pgtabFrame then
    let pte := p.pgtab (vmPageTableIndex vaddr)
    if pte.present = 0 then none
    else some (pte.baseAddr.toNat * pageSize + vaddr % pageSize)
  else none

/-- All frames of physical memory but the first are mapped to themselves, and page 0 is not
present. -/
structure Paging.IdentityMapped (p : Paging) (numframes : ℕ) : Prop where
  frames : ∀ frame, 1 ≤ frame → frame < numframes → ∀ offset < pageSize,
    p.translate (frame * pageSize + offset) = some (frame * pageSize + offset)
  pageZero : ∀ offset < pageSize, p.translate offset = none

/-! ## Indexes and masks -/

theorem vmPtSpan_eq : vmPtSpan = 4194304 := by
  decide

theorem vmPageDirIndex_eq (vaddr : ℕ) : vmPageDirIndex vaddr = vaddr / 4194304 % 1024 := by
  rw [vmPageDirIndex, Nat.shiftRight_eq_div_pow]
  exact Nat.and_two_pow_sub_one_eq_mod _ 10

theorem vmPageTableIndex_eq (vaddr : ℕ) : vmPageTableIndex vaddr = vaddr / 4096 % 1024 := by
  rw [vmPageTableIndex, Nat.shiftRight_eq_div_pow]
  exact Nat.and_two_pow_sub_one_eq_mod _ 10

theorem vmPageBaseAddr_eq (addr : ℕ) : vmPageBaseAddr addr = addr / 4096 :=
  Nat.shiftRight_eq_div_pow addr 12

/-- The multiples of 4 MB pass the assertion. -/
theorem isPtSpanAligned_mul {k : ℕ} (h : k < 1024) : isPtSpanAligned (k * 4194304) = true := by
  -- the mask keeps the upper ten bits, and below 4 GB a multiple of 4 MB has no others
  have hmask : (0xFFC00000 : ℕ) = 1023 <<< 22 := by decide
  have hk : k * 4194304 = k <<< 22 := (Nat.shiftLeft_eq k 22).symm
  rw [isPtSpanAligned, decide_eq_true_iff, hk, hmask, ← Nat.shiftLeft_and_distrib]
  congr 1
  rw [Nat.and_two_pow_sub_one_eq_mod k 10]
  exact Nat.mod_eq_of_lt h

theorem memMax_le (memUpper : ℕ) : memMax memUpper ≤ 2 ^ 31 := by
  unfold memMax
  dsimp only
  split <;> omega

/-- The entry that maps a page to itself. -/
def pageEntry (paddr : ℕ) : Pte where
  present := 1
  flags := kernelFlags
  baseAddr := BitVec.ofNat 20 (vmPageBaseAddr paddr)

/-- The entry that maps 4 MB to themselves. -/
def largePageEntry (paddr : ℕ) : Pde where
  present := 1
  flags := kernelFlags
  pageSize := 1
  baseAddr := BitVec.ofNat 20 (vmPageBaseAddr paddr)

/-- The page table of the low 4 MB: each page but the first is mapped to itself. -/
theorem lowPageTable_ok :
    ∃ pgtab, forAddress pageSize vmPtSpan pageSize
        (fun pgtab paddr => vmSetPte pgtab kernelFlags paddr paddr) (fun _ => {}) = .ok pgtab ∧
      pgtab 0 = {} ∧ ∀ i, 1 ≤ i → i < 1024 → pgtab i = pageEntry (i * 4096) := by
  have haddr : ∀ a ∈ addresses pageSize vmPtSpan pageSize,
      ∃ k, 1 ≤ k ∧ k < 1024 ∧ a = k * 4096 := by
    intro a ha
    obtain ⟨hlt, k, rfl⟩ := (mem_addresses (by decide)).mp ha
    rw [vmPtSpan_eq] at hlt
    unfold pageSize at hlt ⊢
    exact ⟨k + 1, by omega, by omega, by omega⟩
  have hbody : ∀ t, ∀ a ∈ addresses pageSize vmPtSpan pageSize,
      vmSetPte t kernelFlags a a =
        .ok (Function.update t (vmPageTableIndex a) (pageEntry a)) := by
    intro t a ha
    obtain ⟨k, -, -, rfl⟩ := haddr a ha
    have halign : memIsPageAligned (k * 4096) = true :=
      memIsPageAligned_iff.mpr (Nat.mul_mod_left k 4096)
    rw [vmSetPte, require, if_pos halign]
    rfl
  -- each round of the loop writes an entry of its own
  have hidx : Set.InjOn vmPageTableIndex {a | a ∈ addresses pageSize vmPtSpan pageSize} := by
    intro a ha b hb hab
    obtain ⟨j, -, hj, rfl⟩ := haddr a ha
    obtain ⟨k, -, hk, rfl⟩ := haddr b hb
    rw [vmPageTableIndex_eq, vmPageTableIndex_eq] at hab
    omega
  obtain ⟨pgtab, hok, hset, hkept⟩ :=
    forAddress_fill vmPageTableIndex pageEntry hbody (by decide) hidx fun _ => {}
  -- the loop begins at the second page, so entry 0 stays empty
  refine ⟨pgtab, hok, hkept 0 fun h0 => ?_, fun i hi hlt => ?_⟩
  · obtain ⟨a, ha, h0⟩ := List.mem_map.mp h0
    obtain ⟨k, hk, hlt, rfl⟩ := haddr a ha
    rw [vmPageTableIndex_eq] at h0
    omega
  · have hmem : i * 4096 ∈ addresses pageSize vmPtSpan pageSize := by
      rw [mem_addresses (by decide), vmPtSpan_eq]
      exact ⟨by omega, i - 1, by unfold pageSize; omega⟩
    have hindex : vmPageTableIndex (i * 4096) = i := by
      rw [vmPageTableIndex_eq]
      omega
    rw [← hset _ hmem, hindex]

/-- The rest of the page directory: an entry for each 4 MB that begin below `memMax`. -/
theorem largePages_ok (memUpper : ℕ) (pgdir₀ : ℕ → Pde) :
    ∃ pgdir, forAddress vmPtSpan (memMax memUpper) vmPtSpan
        (fun pgdir paddr => vmSetPde4m pgdir kernelFlags paddr paddr) pgdir₀ = .ok pgdir ∧
      pgdir 0 = pgdir₀ 0 ∧ ∀ i, 1 ≤ i → i < 1024 → pgdir i =
        if i * 4194304 < memMax memUpper then largePageEntry (i * 4194304) else pgdir₀ i := by
  have hmax := memMax_le memUpper
  have haddr : ∀ a ∈ addresses vmPtSpan (memMax memUpper) vmPtSpan,
      ∃ k, 1 ≤ k ∧ k < 1024 ∧ a = k * 4194304 := by
    intro a ha
    obtain ⟨hlt, k, rfl⟩ := (mem_addresses (by decide)).mp ha
    rw [vmPtSpan_eq] at hlt ⊢
    exact ⟨k + 1, by omega, by omega, by omega⟩
  -- so long as the memory ends below 2 GB the index does not wrap
  have hindex : ∀ k < 1024, vmPageDirIndex (k * 4194304) = k := by
    intro k hk
    rw [vmPageDirIndex_eq]
    omega
  have hbody : ∀ t, ∀ a ∈ addresses vmPtSpan (memMax memUpper) vmPtSpan,
      vmSetPde4m t kernelFlags a a =
        .ok (Function.update t (vmPageDirIndex a) (largePageEntry a)) := by
    intro t a ha
    obtain ⟨k, -, hk, rfl⟩ := haddr a ha
    have halign : memIsPageAligned (k * 4194304) = true :=
      memIsPageAligned_iff.mpr (by unfold pageSize; omega)
    rw [vmSetPde4m, require, if_pos (isPtSpanAligned_mul hk), require, if_pos halign]
    rfl
  have hidx : Set.InjOn vmPageDirIndex {a | a ∈ addresses vmPtSpan (memMax memUpper) vmPtSpan} := by
    intro a ha b hb hab
    obtain ⟨j, -, hj, rfl⟩ := haddr a ha
    obtain ⟨k, -, hk, rfl⟩ := haddr b hb
    rw [hindex j hj, hindex k hk] at hab
    rw [hab]
  obtain ⟨pgdir, hok, hset, hkept⟩ :=
    forAddress_fill vmPageDirIndex largePageEntry hbody (by decide) hidx pgdir₀
  refine ⟨pgdir, hok, hkept 0 fun h0 => ?_, fun i hi hlt => ?_⟩
  · obtain ⟨a, ha, h0⟩ := List.mem_map.mp h0
    obtain ⟨k, hk, hlt, rfl⟩ := haddr a ha
    rw [hindex k hlt] at h0
    omega
  · split
    next hmem =>
      have hmem' : i * 4194304 ∈ addresses vmPtSpan (memMax memUpper) vmPtSpan := by
        rw [mem_addresses (by decide), vmPtSpan_eq]
        exact ⟨hmem, i - 1, by omega⟩
      rw [← hset _ hmem', hindex i hlt]
    next hnot =>
      refine hkept i fun hin => ?_
      obtain ⟨a, ha, hai⟩ := List.mem_map.mp hin
      have halt := ((mem_addresses (by decide)).mp ha).1
      obtain ⟨k, -, hk, rfl⟩ := haddr a ha
      rw [hindex k hk] at hai
      rw [hai] at halt
      exact hnot halt

/-- The entry of the page table of the low 4 MB. -/
def pageTableEntry (pgtabFrame : ℕ) : Pde where
  present := 1
  flags := kernelFlags
  baseAddr := BitVec.ofNat 20 pgtabFrame

/-- `vm_init_paging` comes to its end, and leaves these entries. -/
theorem vmInitPaging_ok (pgtabFrame memUpper : ℕ) :
    ∃ p, vmInitPaging pgtabFrame memUpper = .ok p ∧ p.pgtabFrame = pgtabFrame ∧ p.pgtab 0 = {} ∧
      (∀ i, 1 ≤ i → i < 1024 → p.pgtab i = pageEntry (i * 4096)) ∧
      p.pgdir 0 = pageTableEntry pgtabFrame ∧
      ∀ i, 1 ≤ i → i < 1024 → p.pgdir i =
        if i * 4194304 < memMax memUpper then largePageEntry (i * 4194304) else {} := by
  obtain ⟨pgtab, hpgtab, hzero, hpages⟩ := lowPageTable_ok
  have hpde : vmSetPde (fun _ => {}) kernelFlags 0 (pgtabFrame * pageSize) =
      .ok (Function.update (fun _ => {}) 0 (pageTableEntry pgtabFrame)) := by
    have halign : memIsPageAligned (pgtabFrame * pageSize) = true :=
      memIsPageAligned_iff.mpr (Nat.mul_mod_left _ _)
    have hbase : vmPageBaseAddr (pgtabFrame * pageSize) = pgtabFrame := by
      rw [vmPageBaseAddr_eq]
      exact Nat.mul_div_cancel _ (by decide)
    rw [vmSetPde, require, if_pos (by decide), require, if_pos halign, hbase]
    rfl
  obtain ⟨pgdir, hpgdir, hfirst, hlarge⟩ :=
    largePages_ok memUpper (Function.update (fun _ => {}) 0 (pageTableEntry pgtabFrame))
  refine ⟨{ pgdir, pgtabFrame, pgtab }, ?_, rfl, hzero, hpages, ?_, fun i hi hlt => ?_⟩
  · rw [vmInitPaging, hpgtab, ok_bind, hpde, ok_bind, hpgdir, ok_bind]
    rfl
  · rw [Function.update_self] at hfirst
    exact hfirst
  · have hi' := hlarge i hi hlt
    rw [Function.update_of_ne (by omega)] at hi'
    exact hi'

/-- Where the mapped memory ends: at the first multiple of 4 MB behind `memMax`, and not before the
first. -/
def mappedEnd (memUpper : ℕ) : ℕ :=
  max vmPtSpan ((memMax memUpper + (vmPtSpan - 1)) / vmPtSpan * vmPtSpan)

/-- What the processor makes of the tables. -/
theorem translate_eq {pgtabFrame memUpper vaddr : ℕ} {p : Paging} (hframe : pgtabFrame < 2 ^ 20)
    (h : vmInitPaging pgtabFrame memUpper = .ok p) (hv : vaddr < 2 ^ 32) :
    p.translate vaddr = if pageSize ≤ vaddr ∧ vaddr < mappedEnd memUpper then some vaddr else none := by
  obtain ⟨p', hok, hpgtabFrame, hzero, hpages, hfirst, hlarge⟩ := vmInitPaging_ok pgtabFrame memUpper
  obtain rfl : p = p' := by
    rw [h] at hok
    exact Except.ok.inj hok
  have hend : mappedEnd memUpper =
      max 4194304 ((memMax memUpper + 4194303) / 4194304 * 4194304) := rfl
  have hdir : vmPageDirIndex vaddr = vaddr / 4194304 := by
    rw [vmPageDirIndex_eq]
    omega
  unfold Paging.translate
  rw [hdir]
  -- the low 4 MB go through the page table, and the rest through entries for large pages
  rcases Nat.eq_zero_or_pos (vaddr / 4194304) with hlow | hhigh
  · have htable : vmPageTableIndex vaddr = vaddr / 4096 := by
      rw [vmPageTableIndex_eq]
      omega
    have hbase : (BitVec.ofNat 20 pgtabFrame).toNat = pgtabFrame := by
      rw [BitVec.toNat_ofNat, Nat.mod_eq_of_lt hframe]
    rw [hlow, hfirst, htable]
    simp only [pageTableEntry, hbase, hpgtabFrame]
    -- page 0 has no entry in the page table
    rcases Nat.eq_zero_or_pos (vaddr / 4096) with hpage | hpage
    · have hnot : ¬(pageSize ≤ vaddr ∧ vaddr < mappedEnd memUpper) := by
        unfold pageSize
        omega
      rw [hpage, hzero, if_neg hnot]
      rfl
    · have hmapped : pageSize ≤ vaddr ∧ vaddr < mappedEnd memUpper := by
        rw [hend]
        unfold pageSize
        omega
      have hentry : (BitVec.ofNat 20 (vmPageBaseAddr (vaddr / 4096 * 4096))).toNat =
          vaddr / 4096 := by
        rw [vmPageBaseAddr_eq, BitVec.toNat_ofNat]
        omega
      have hself : vaddr / 4096 * pageSize + vaddr % pageSize = vaddr :=
        Nat.div_add_mod' vaddr pageSize
      rw [hpages _ hpage (by omega), if_pos hmapped]
      simp [pageEntry, hentry, hself]
  · rw [hlarge _ hhigh (by omega)]
    by_cases hbelow : vaddr / 4194304 * 4194304 < memMax memUpper
    · have hmapped : pageSize ≤ vaddr ∧ vaddr < mappedEnd memUpper := by
        rw [hend]
        unfold pageSize
        omega
      have hentry : (largePageEntry (vaddr / 4194304 * 4194304)).baseAddr.toNat / 1024 =
          vaddr / 4194304 := by
        rw [largePageEntry, vmPageBaseAddr_eq, BitVec.toNat_ofNat]
        omega
      have hself : vaddr / 4194304 * vmPtSpan + vaddr % vmPtSpan = vaddr :=
        Nat.div_add_mod' vaddr vmPtSpan
      rw [if_pos hbelow, if_pos hmapped]
      show some ((largePageEntry _).baseAddr.toNat / 1024 * vmPtSpan + vaddr % vmPtSpan) = some vaddr
      rw [hentry, hself]
    · have hnot : ¬(pageSize ≤ vaddr ∧ vaddr < mappedEnd memUpper) := by
        rw [hend]
        omega
      rw [if_neg hbelow, if_neg hnot]
      rfl

/-- The frames are mapped if the mapped memory does not end before them. -/
theorem identityMapped_iff_le {pgtabFrame memUpper numframes : ℕ} {p : Paging}
    (hframe : pgtabFrame < 2 ^ 20) (h : vmInitPaging pgtabFrame memUpper = .ok p)
    (hn : numframes ≤ 2 ^ 20) :
    p.IdentityMapped numframes ↔ numframes ≤ 1 ∨ numframes * pageSize ≤ mappedEnd memUpper := by
  have hpage : pageSize = 4096 := rfl
  have htranslate : ∀ vaddr < 2 ^ 32, p.translate vaddr =
      if pageSize ≤ vaddr ∧ vaddr < mappedEnd memUpper then some vaddr else none :=
    fun vaddr hv => translate_eq hframe h hv
  rw [hpage] at htranslate ⊢
  constructor
  · intro hmap
    by_contra hnot
    -- the last byte of the last frame
    have hlast := hmap.frames (numframes - 1) (by omega) (by omega) 4095 (by omega)
    rw [hpage, htranslate _ (by omega), if_neg (by omega)] at hlast
    cases hlast
  · intro hle
    refine ⟨fun frame hone hlt offset hoffset => ?_, fun offset hoffset => ?_⟩
    · rw [hpage] at hoffset ⊢
      rw [htranslate _ (by omega), if_pos (by omega)]
    · rw [hpage] at hoffset
      rw [htranslate _ (by omega), if_neg (by omega)]

/-- The mapped memory ends where `mem_upper` does, rounded up to 4 MB. -/
theorem mappedEnd_eq {memUpper : ℕ} (hmem : memUpper * 1024 ≤ 2 ^ 31) :
    mappedEnd memUpper = max 4194304 ((memUpper * 1024 + 4194303) / 4194304 * 4194304) := by
  have hmax : memMax memUpper = memUpper * 1024 := by
    unfold memMax
    rw [ulong_of_lt (by omega)]
    exact if_neg (by omega)
  rw [← hmax]
  rfl

/-- For every `mem_upper` with at most 2 GB of memory: all frames that the frame table has are
mapped to themselves, and page 0 is not, if and only if `mem_upper` is 0, or is above a multiple of
4 MB by less than 3076 KB. The megabyte below `mem_upper` counts for the frame table only. -/
theorem identityMapped_iff {endAddr pgtabFrame memUpper : ℕ} (hmem : 1024 + memUpper ≤ 2 ^ 21)
    (hframe : pgtabFrame < (x86memInitLayout endAddr memUpper).numframes) :
    ∃ p, vmInitPaging pgtabFrame memUpper = .ok p ∧
      (p.IdentityMapped (x86memInitLayout endAddr memUpper).numframes ↔
        memUpper = 0 ∨ 0 < memUpper % 4096 ∧ memUpper % 4096 < 3076) := by
  obtain ⟨p, hok, -⟩ := vmInitPaging_ok pgtabFrame memUpper
  rw [numframes_eq (by omega)] at hframe ⊢
  refine ⟨p, hok, ?_⟩
  have hpage : pageSize = 4096 := rfl
  rw [identityMapped_iff_le (by omega) hok (by omega), mappedEnd_eq (by omega), hpage]
  omega

/-- A machine with 128 MB. -/
theorem identityMapped_128mb :
    ∃ p, vmInitPaging 300 130048 = .ok p ∧
      p.IdentityMapped (x86memInitLayout 0x140000 130048).numframes := by
  have hframe : 300 < (x86memInitLayout 0x140000 130048).numframes := by decide
  obtain ⟨p, hok, hiff⟩ := identityMapped_iff (by decide) hframe
  exact ⟨p, hok, hiff.mpr (by decide)⟩

/-- A machine with 33 MB: its last megabyte is not mapped. -/
theorem not_identityMapped_33mb :
    ∃ p, vmInitPaging 300 32768 = .ok p ∧ 300 < (x86memInitLayout 0x140000 32768).numframes ∧
      p.translate (8192 * pageSize) = none ∧
      ¬p.IdentityMapped (x86memInitLayout 0x140000 32768).numframes := by
  obtain ⟨p, hok, -⟩ := vmInitPaging_ok 300 32768
  have hend : mappedEnd 32768 = 33554432 := mappedEnd_eq (by decide)
  refine ⟨p, hok, by decide, ?_, ?_⟩
  · rw [translate_eq (by decide) hok (by decide), if_neg (by rw [hend]; decide)]
  · rw [identityMapped_iff_le (by decide) hok (by decide), hend]
    decide

end GeekOS.Memory
