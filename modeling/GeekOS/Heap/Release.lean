import GeekOS.Heap.Refinement

/-!
# Giving chunks back

`free` on a heap that stands for an arena. The chunk is linked between the free chunks in front of
it and behind it; it is joined first with the chunk behind it and then with the one in front of it.

* `Upper`, `exists_upper`: the heap after the chunk has been linked to what is behind it;
* `Upper.represents_link`, `Upper.represents_mergeLower`: the heap after it has been linked to what
  is in front of it;
* `Represents.free`: `free` does what `Arena.release` does.
-/

namespace GeekOS.Memory.Heap

open Arena LinkedList

variable {h h₁ : Heap} {bs xs ys zs : List Block} {b c d n : Block} {rounds fp1 : ℕ}

/-- The chunk `n` has been linked to the free chunks behind it, with `zs` behind it now. Nothing
but its own entry has been stored into. -/
structure Upper (h h₁ : Heap) (xs : List Block) (n : Block) (zs : List Block) : Prop where
  free : n.used = false
  size : h₁.sz n.addr = n.size
  next : Path h₁.next (h₁.next n.addr) ((Arena.free zs).map Block.addr) none
  header : ∀ c, c ∈ xs ∨ c ∈ zs → h₁.sz c.addr = c.size
  mem : ∀ i, i < n.addr ∨ n.addr + 8 ≤ i → h₁.mem i = h.mem i
  heapstart : h₁.heapstart = h.heapstart
  heapend : h₁.heapend = h.heapend
  brkval : h₁.brkval = h.brkval
  flp : h₁.flp = h.flp

/-- The chunk next to a chunk is the first one behind it. -/
theorem Represents.adjacent (hr : h.Represents (xs ++ b :: ys)) (hc : c ∈ ys) :
    b.addr + sizeofSize + b.size = c.addr ↔ ys.head? = some c := by
  obtain ⟨mid, -, -, hys⟩ := tiles_append.mp hr.tidy.tiles
  cases ys with
  | nil => cases hc
  | cons d ys =>
    obtain ⟨hd, hrest⟩ := hys
    have hstop : d.addr = b.addr + sizeofSize + b.size := hd
    rw [List.head?_cons, Option.some.injEq]
    constructor
    · intro heq
      rcases List.mem_cons.mp hc with rfl | hc
      · rfl
      · -- a chunk further behind begins behind this one
        have hle := (hrest.inside hc).1
        unfold Block.stop at hle
        unfold sizeofSize at *
        omega
    · rintro rfl
      exact hstop.symm

/-- The chunk next to a chunk is the last one in front of it. -/
theorem Represents.adjacent_front (hr : h.Represents (xs ++ b :: ys)) (hc : c ∈ xs) :
    c.addr + sizeofSize + c.size = b.addr ↔ xs.getLast? = some c := by
  obtain ⟨mid, hxs, haddr, -⟩ := tiles_append.mp hr.tidy.tiles
  rcases List.eq_nil_or_concat' xs with rfl | ⟨front, d, rfl⟩
  · cases hc
  · obtain ⟨mid', hfront, hd, hmid⟩ := tiles_append.mp hxs
    have hstop : d.addr + sizeofSize + d.size = mid := hmid
    rw [List.getLast?_concat, Option.some.injEq]
    constructor
    · intro heq
      rcases List.mem_append.mp hc with hc | hc
      · have hle := (hfront.inside hc).2
        unfold Block.stop at hle
        unfold sizeofSize at *
        omega
      · exact (List.mem_singleton.mp hc).symm
    · rintro rfl
      omega

/-- The last chunk in front of another one, if it is free, ends the free list there. -/
theorem getLast?_free (hc : c.used = false) (h : xs.getLast? = some c) :
    (Arena.free xs).getLast? = some c := by
  rcases List.eq_nil_or_concat' xs with rfl | ⟨front, d, rfl⟩
  · cases h
  · obtain rfl : d = c := by simpa using h
    simp [Arena.free, hc]

/-- Stores into the entry of the chunk change nothing of the other chunks. -/
theorem Represents.header_of_mem (hr : h.Represents (xs ++ b :: ys))
    (hmem : ∀ i, i < b.addr ∨ b.addr + 8 ≤ i → h₁.mem i = h.mem i) (hc : c ∈ xs ∨ c ∈ ys) :
    h₁.sz c.addr = c.size ∧ h₁.nx c.addr = h.nx c.addr := by
  obtain ⟨hfront, hback⟩ := hr.front_back
  have hcm : c ∈ xs ++ b :: ys := by
    simp only [List.mem_append, List.mem_cons]
    tauto
  have hleast := (hr.lt (b := b) (by simp)).2.2.1
  have hcl := (hr.lt hcm).2.2.1
  have hkeep : ∀ i, c.addr ≤ i → i < c.addr + 8 → h₁.mem i = h.mem i := by
    intro i hle hlt
    apply hmem
    unfold sizeofSize at *
    rcases hc with hc | hc
    · have hcb := hfront c hc
      omega
    · have hcb := hback c hc
      omega
  constructor
  · rw [← hr.header c hcm]
    exact sz_congr fun i hle hlt => hkeep i hle (by omega)
  · exact nx_congr fun i hle hlt => hkeep i (by omega) hlt

theorem Represents.path_of_mem {p q : Option ℕ} (hr : h.Represents (xs ++ b :: ys))
    (hmem : ∀ i, i < b.addr ∨ b.addr + 8 ≤ i → h₁.mem i = h.mem i) {l : List Block}
    (hl : ∀ c ∈ l, c ∈ xs ∨ c ∈ ys) (hpath : Path h.next p (l.map Block.addr) q) :
    Path h₁.next p (l.map Block.addr) q := by
  refine hpath.congr ?_
  intro n hn
  obtain ⟨c, hc, rfl⟩ := List.mem_map.mp hn
  rw [next, next, (hr.header_of_mem hmem (hl c hc)).2]

/-- The first stores of `free`: the chunk is linked to what is behind it, and becomes one chunk
with the next one if that is free. -/
theorem exists_upper (hr : h.Represents (xs ++ b :: ys))
    (hpath : Path h.next (ptr fp1) ((Arena.free ys).map Block.addr) none) :
    ∃ n zs, join sizeofSize { b with used := false } ys = n :: zs ∧ n.addr = b.addr ∧
      Upper h (if fp1 ≠ 0 then (h.setNx b.addr 0).mergeUpper b.addr fp1 else h.setNx b.addr 0)
        xs n zs := by
  obtain ⟨hpos, hstop, hleast, htop⟩ := hr.lt (b := b) (by simp)
  have hsz : h.sz b.addr = b.size := hr.header b (by simp)
  cases hys : Arena.free ys with
  | nil =>
    -- nothing free is behind the chunk
    rw [hys] at hpath
    obtain rfl : fp1 = 0 := ptr_eq_none.mp hpath
    rw [if_neg (fun h => h rfl)]
    have hmem : ∀ i, i < b.addr ∨ b.addr + 8 ≤ i → (h.setNx b.addr 0).mem i = h.mem i :=
      fun i hi => setNx_mem (by omega)
    have hjoin : join sizeofSize { b with used := false } ys = { b with used := false } :: ys := by
      rcases join_cases sizeofSize { b with used := false } ys with
        ⟨c, cs, rfl, -, hc, -⟩ | ⟨-, heq⟩
      · simp [Arena.free, hc] at hys
      · exact heq
    refine ⟨{ b with used := false }, ys, hjoin, rfl, rfl, ?_, ?_, ?_, hmem, rfl, rfl, rfl, rfl⟩
    · exact sz_setNx_self.trans hsz
    · rw [hys]
      show ptr ((h.setNx b.addr 0).nx b.addr) = none
      rw [nx_setNx (by decide)]
      rfl
    · exact fun c hc => (hr.header_of_mem hmem hc).1
  | cons c cs =>
    rw [hys] at hpath
    obtain ⟨hfp1, hrest⟩ := hpath
    obtain ⟨rfl, hposc⟩ := ptr_eq_some.mp hfp1
    obtain ⟨hcm, hcf⟩ : c ∈ ys ∧ c.used = false := mem_free.mp (by simp [hys])
    have hcl := hr.lt (b := c) (by simp [hcm])
    -- the first free chunk behind it
    rw [if_pos hposc.ne', mergeUpper]
    have hmem : ∀ i, i < b.addr ∨ b.addr + 8 ≤ i →
        ((h.setNx b.addr 0).setNx b.addr c.addr).mem i = h.mem i := by
      intro i hi
      rw [setNx_mem (by omega), setNx_mem (by omega)]
    have hsz₁ : ((h.setNx b.addr 0).setNx b.addr c.addr).sz b.addr = b.size := by
      rw [sz_setNx_self, sz_setNx_self, hsz]
    have hstop₁ : ulong (b.addr + sizeofSize + b.size) = b.addr + sizeofSize + b.size :=
      ulong_of_lt (by omega)
    rw [hsz₁, hstop₁]
    by_cases hadj : b.addr + sizeofSize + b.size = c.addr
    · -- the next chunk is free
      obtain ⟨rest, rfl⟩ : ∃ rest, ys = c :: rest :=
        List.head?_eq_some_iff.mp ((hr.adjacent hcm).mp hadj)
      obtain rfl : Arena.free rest = cs := by
        simpa [Arena.free, hcf] using hys
      obtain ⟨hcsz, hcnx⟩ := hr.header_of_mem hmem (.inr hcm)
      have hsum : ulong (b.size + ulong (c.size + sizeofSize)) = b.size + (c.size + sizeofSize) := by
        rw [ulong_of_lt (n := c.size + sizeofSize) (by omega)]
        exact ulong_of_lt (by unfold sizeofSize at *; omega)
      rw [if_pos hadj, hcsz, hsum]
      have hmem' : ∀ v w i, i < b.addr ∨ b.addr + 8 ≤ i →
          ((((h.setNx b.addr 0).setNx b.addr c.addr).setSz b.addr v).setNx b.addr w).mem i =
            h.mem i := by
        intro v w i hi
        rw [setNx_mem (by omega), setSz_mem (by omega), hmem i hi]
      have hnx : (((h.setNx b.addr 0).setNx b.addr c.addr).setSz b.addr
          (b.size + (c.size + sizeofSize))).nx c.addr = h.nx c.addr := by
        rw [← hcnx]
        refine nx_congr fun i hle _ => setSz_mem ?_
        unfold sizeofSize at hadj hleast
        omega
      simp only [hnx]
      refine ⟨⟨b.addr, b.size + (c.size + sizeofSize), false⟩, rest, if_pos ⟨rfl, hcf⟩, rfl, rfl,
        ?_, ?_, ?_, hmem' _ _, rfl, rfl, rfl, rfl⟩
      · rw [sz_setNx_self]
        exact sz_setSz (by unfold sizeofSize at *; omega)
      · rw [next, nx_setNx (nx_lt h c.addr)]
        exact hr.path_of_mem (hmem' _ _)
          (fun d hd => .inr (List.mem_cons_of_mem _ (mem_free.mp hd).1)) hrest
      · intro d hd
        exact (hr.header_of_mem (hmem' _ _) (hd.imp_right (List.mem_cons_of_mem _))).1
    · have hjoin : join sizeofSize { b with used := false } ys =
          { b with used := false } :: ys := by
        rcases join_cases sizeofSize { b with used := false } ys with
          ⟨d, ds, rfl, -, hd, -⟩ | ⟨-, heq⟩
        · -- a free chunk next to it would be the first one of the list
          obtain ⟨rfl, -⟩ : d = c ∧ _ := by simpa [Arena.free, hd] using hys
          exact absurd ((hr.adjacent hcm).mpr rfl) hadj
        · exact heq
      rw [if_neg hadj]
      refine ⟨{ b with used := false }, ys, hjoin, rfl, rfl, hsz₁, ?_, ?_, hmem, rfl, rfl, rfl,
        rfl⟩
      · rw [next, nx_setNx (by omega), hys]
        refine ⟨ptr_of_pos hposc, ?_⟩
        have hnx := (hr.header_of_mem hmem (.inr hcm)).2
        rw [next, hnx]
        refine hr.path_of_mem hmem (fun d hd => .inr ?_) hrest
        exact (mem_free.mp (show d ∈ Arena.free ys by simp [hys, hd])).1
      · exact fun d hd => (hr.header_of_mem hmem hd).1

/-- The chunk is linked behind the free chunks in front of it. -/
theorem Upper.represents_link {q : Option ℕ} (hu : Upper h h₁ xs n zs)
    (hr : h.Represents (xs ++ b :: ys)) (haddr : n.addr = b.addr)
    (hpath : Path h.next (ptr h.flp) ((Arena.free xs).map Block.addr) q)
    (htidy : Tidy sizeofSize sizeofSize h.heapstart (xs ++ n :: zs) h.top) :
    (h₁.link (lastEntry 0 (Arena.free xs)) n.addr).Represents (xs ++ n :: zs) := by
  have htop : (h₁.link (lastEntry 0 (Arena.free xs)) n.addr).top = h.top := by
    rw [Represents.link_top, top, top, hu.brkval, hu.heapstart]
  have hpos := hr.lt (b := b) (by simp)
  have hlast : lastEntry 0 (Arena.free xs) = 0 ∨
      ∃ d ∈ xs ++ n :: zs, lastEntry 0 (Arena.free xs) = d.addr := by
    rcases lastEntry_mem _ with h0 | ⟨d, hd, heq⟩
    · exact .inl h0
    · exact .inr ⟨d, List.mem_append_left _ (mem_free.mp hd).1, heq⟩
  obtain ⟨hapart, hbehind⟩ := Represents.free_apart htidy.tiles htidy.least
  refine ⟨?_, ?_, ?_, ?_, ?_, ?_⟩
  · rwa [link_heapstart, hu.heapstart, htop]
  · intro c hc
    rw [Represents.sz_link htidy.tiles htidy.least hlast hc]
    simp only [List.mem_append, List.mem_cons] at hc
    rcases hc with hc | rfl | hc
    · exact hu.header c (.inl hc)
    · exact hu.size
    · exact hu.header c (.inr hc)
  · have hfree : Arena.free (xs ++ n :: zs) = Arena.free xs ++ n :: Arena.free zs := by
      simp [Arena.free, hu.free]
    rw [hfree, List.map_append]
    refine path_append.mpr ⟨ptr n.addr, ?_, ?_⟩
    · apply path_link (q := q) _ hapart
      · exact fun c hc => (hr.lt (List.mem_append_left _ (mem_free.mp hc).1)).1
      · omega
      · rw [hu.flp]
        exact hr.path_of_mem (haddr ▸ hu.mem) (fun c hc => .inl (mem_free.mp hc).1) hpath
    · rw [ptr_of_pos (by omega)]
      have hrest : Path h₁.next (some n.addr) ((n :: Arena.free zs).map Block.addr) none :=
        ⟨rfl, hu.next⟩
      refine path_link_of_apart hrest fun c hc => hbehind c ?_
      exact List.mem_cons.mpr ((List.mem_cons.mp hc).imp_right fun hc => (mem_free.mp hc).1)
  · rw [link_heapstart, hu.heapstart]
    exact hr.start
  · rw [htop, link_heapend, hu.heapend]
    exact hr.top_le
  · rw [link_heapend, hu.heapend]
    exact hr.heapend

theorem mergeLower_heapstart {fpnew fp2 : ℕ} :
    (h.mergeLower fpnew fp2).heapstart = h.heapstart := by
  unfold mergeLower
  dsimp only
  split <;> rfl

theorem mergeLower_heapend {fpnew fp2 : ℕ} : (h.mergeLower fpnew fp2).heapend = h.heapend := by
  unfold mergeLower
  dsimp only
  split <;> rfl

theorem mergeLower_brkval {fpnew fp2 : ℕ} : (h.mergeLower fpnew fp2).brkval = h.brkval := by
  unfold mergeLower
  dsimp only
  split <;> rfl

/-- The stores that make one chunk of `n` and the free chunk `d` in front of it. -/
theorem mergeLower_eq {size : ℕ} (hd : h₁.sz d.addr = d.size)
    (hadj : ulong (d.addr + sizeofSize + d.size) = n.addr) (hn : h₁.sz n.addr = n.size)
    (hbehind : d.addr + 8 ≤ n.addr)
    (hsize : ulong (d.size + ulong (n.size + sizeofSize)) = size) :
    h₁.mergeLower n.addr d.addr =
      ((h₁.setNx d.addr n.addr).setSz d.addr size).setNx d.addr (h₁.nx n.addr) := by
  have hkeep : ∀ i, n.addr ≤ i → (h₁.setNx d.addr n.addr).mem i = h₁.mem i :=
    fun i hi => setNx_mem (by omega)
  have hsz : (h₁.setNx d.addr n.addr).sz d.addr = d.size := sz_setNx_self.trans hd
  have hszn : (h₁.setNx d.addr n.addr).sz n.addr = n.size := by
    rw [← hn]
    exact sz_congr fun i hi _ => hkeep i hi
  have hnx : ((h₁.setNx d.addr n.addr).setSz d.addr size).nx n.addr = h₁.nx n.addr := by
    refine nx_congr fun i hi _ => ?_
    rw [setSz_mem (by omega), hkeep i (by omega)]
  rw [mergeLower]
  simp only [hsz, hszn, hadj, hsize, hnx, if_pos]

/-- The chunk becomes one with the free chunk in front of it. -/
theorem Upper.represents_mergeLower {q : Option ℕ} (hu : Upper h h₁ (xs ++ [d]) n zs)
    (hr : h.Represents (xs ++ [d] ++ b :: ys)) (haddr : n.addr = b.addr) (hd : d.used = false)
    (hpath : Path h.next (ptr h.flp) ((Arena.free (xs ++ [d])).map Block.addr) q)
    (htiles : Tiles sizeofSize h.heapstart (xs ++ [d] ++ n :: zs) h.top)
    (hleast : ∀ c ∈ xs ++ [d] ++ n :: zs, sizeofSize ≤ c.size)
    (htidy : Tidy sizeofSize sizeofSize h.heapstart
      (xs ++ ⟨d.addr, d.size + (n.size + sizeofSize), false⟩ :: zs) h.top) :
    (h₁.mergeLower n.addr d.addr).Represents
        (xs ++ ⟨d.addr, d.size + (n.size + sizeofSize), false⟩ :: zs) ∧
      ∀ i, i < d.addr ∨ d.addr + 8 ≤ i → (h₁.mergeLower n.addr d.addr).mem i = h₁.mem i := by
  have hdm : d ∈ xs ++ [d] ++ n :: zs := by simp
  have hnm : n ∈ xs ++ [d] ++ n :: zs := by simp
  have hposd := (hr.lt (b := d) (by simp)).1
  have htop := hr.top_le
  have hend := hr.heapend
  have hnstop := (htiles.inside hnm).2
  have hdsize := hleast d hdm
  have hadj : d.addr + sizeofSize + d.size = n.addr := by
    obtain ⟨mid, hxs, hn, -⟩ := tiles_append.mp htiles
    obtain ⟨mid', -, hd, hmid⟩ := tiles_append.mp hxs
    rw [hn]
    exact hmid
  unfold Block.stop at hnstop
  have hsize : ulong (d.size + ulong (n.size + sizeofSize)) = d.size + (n.size + sizeofSize) := by
    rw [ulong_of_lt (n := n.size + sizeofSize) (by omega)]
    exact ulong_of_lt (by unfold sizeofSize at *; omega)
  rw [mergeLower_eq (hu.header d (by simp)) ((ulong_of_lt (by omega)).trans hadj) hu.size
    (by unfold sizeofSize at *; omega) hsize]
  -- the entry of the chunk in front is all that changes
  have hmem : ∀ i, i < d.addr ∨ d.addr + 8 ≤ i →
      (((h₁.setNx d.addr n.addr).setSz d.addr (d.size + (n.size + sizeofSize))).setNx d.addr
        (h₁.nx n.addr)).mem i = h₁.mem i := by
    intro i hi
    rw [setNx_mem (by omega), setSz_mem (by omega), setNx_mem (by omega)]
  have hother : ∀ c, c ∈ xs ∨ c ∈ zs → ∀ i, c.addr ≤ i → i < c.addr + 8 →
      i < d.addr ∨ d.addr + 8 ≤ i := by
    intro c hc i hle hlt
    have hcm : c ∈ xs ++ [d] ++ n :: zs := by
      simp only [List.mem_append, List.mem_cons]
      tauto
    have hne : c ≠ d := by
      rintro rfl
      have hpair := htiles.pairwise
      rw [List.append_assoc, List.pairwise_append] at hpair
      unfold Block.stop sizeofSize at hpair
      rcases hc with hc | hc
      · have hlt := hpair.2.2 c hc c (by simp)
        omega
      · have hlt := (List.pairwise_cons.mp hpair.2.1).1 c (by simp [hc])
        omega
    have hapart := apart_of_tiles htiles hleast hcm hdm hne
    unfold Apart at hapart
    omega
  refine ⟨⟨?_, ?_, ?_, ?_, ?_, ?_⟩, hmem⟩
  · show Tidy _ _ h₁.heapstart _ (top _)
    rw [hu.heapstart]
    have heq : top (((h₁.setNx d.addr n.addr).setSz d.addr
        (d.size + (n.size + sizeofSize))).setNx d.addr (h₁.nx n.addr)) = h.top := by
      show (if h₁.brkval = 0 then h₁.heapstart else h₁.brkval) = _
      rw [hu.brkval, hu.heapstart, top]
    rwa [heq]
  · intro c hc
    simp only [List.mem_append, List.mem_cons] at hc
    rcases hc with hc | rfl | hc
    · rw [← hu.header c (.inl (List.mem_append_left _ hc))]
      exact sz_congr fun i hle hlt => hmem i (hother c (.inl hc) i hle (by omega))
    · show sz _ d.addr = _
      rw [sz_setNx_self]
      exact sz_setSz (by unfold sizeofSize at *; omega)
    · rw [← hu.header c (.inr hc)]
      exact sz_congr fun i hle hlt => hmem i (hother c (.inr hc) i hle (by omega))
  · have hlist : Arena.free (xs ++ ⟨d.addr, d.size + (n.size + sizeofSize), false⟩ :: zs) =
        Arena.free xs ++ ⟨d.addr, d.size + (n.size + sizeofSize), false⟩ :: Arena.free zs := by
      simp [Arena.free]
    have hcong : ∀ {l : List Block} {p r : Option ℕ}, (∀ c ∈ l, c ∈ xs ∨ c ∈ zs) →
        Path h₁.next p (l.map Block.addr) r →
        Path (((h₁.setNx d.addr n.addr).setSz d.addr (d.size + (n.size + sizeofSize))).setNx
          d.addr (h₁.nx n.addr)).next p (l.map Block.addr) r := by
      intro l p r hl hp
      refine hp.congr ?_
      intro m hm
      obtain ⟨c, hc, rfl⟩ := List.mem_map.mp hm
      exact next_congr fun i hle hlt => hmem i (hother c (hl c hc) i (by omega) hlt)
    -- up to the chunk in front, the list is what it was
    have hpath₁ := hr.path_of_mem (haddr ▸ hu.mem) (fun c hc => .inl (mem_free.mp hc).1) hpath
    have hfreed : Arena.free (xs ++ [d]) = Arena.free xs ++ [d] := by
      simp [Arena.free, hd]
    rw [hfreed, List.map_append] at hpath₁
    obtain ⟨r, hxs, rfl, -⟩ := path_append.mp hpath₁
    rw [hlist, List.map_append]
    refine path_append.mpr ⟨some d.addr, ?_, rfl, ?_⟩
    · show Path _ (ptr h₁.flp) _ _
      rw [hu.flp]
      exact hcong (fun c hc => .inl (mem_free.mp hc).1) hxs
    · show Path _ (Heap.next _ d.addr) _ _
      rw [Heap.next, nx_setNx (nx_lt h₁ n.addr)]
      exact hcong (fun c hc => .inr (mem_free.mp hc).1) hu.next
  · show sizeofSize ≤ h₁.heapstart
    rw [hu.heapstart]
    exact hr.start
  · show (if h₁.brkval = 0 then h₁.heapstart else h₁.brkval) ≤ h₁.heapend
    rw [hu.brkval, hu.heapstart, hu.heapend]
    exact htop
  · show h₁.heapend < 2 ^ 32
    rw [hu.heapend]
    exact hend

/-- The loop of `free` ends between the free chunks in front of the chunk and those behind it. -/
theorem Represents.walkAddress_eq (hr : h.Represents (xs ++ b :: ys))
    (hfront : Path h₁.next (ptr h₁.flp) ((Arena.free xs).map Block.addr) (ptr fp1))
    (hback : ptr fp1 = ((Arena.free ys).map Block.addr).head?)
    (hrounds : (xs ++ b :: ys).length < rounds) :
    h₁.walkAddress b.addr rounds h₁.flp 0 = some (fp1, lastEntry 0 (Arena.free xs)) := by
  obtain ⟨hxs, hys⟩ := hr.front_back
  have hlen : (Arena.free xs).length ≤ xs.length := List.length_filter_le ..
  obtain ⟨k, rfl⟩ : ∃ k, rounds = k + 1 + (Arena.free xs).length := by
    refine ⟨rounds - 1 - (Arena.free xs).length, ?_⟩
    simp only [List.length_append, List.length_cons] at hrounds
    omega
  have hlt : ∀ c ∈ Arena.free xs, c.addr < b.addr := by
    intro c hc
    have hle := hxs c (mem_free.mp hc).1
    unfold sizeofSize at hle
    omega
  -- behind the free chunks in front, the next entry is null or behind the chunk
  rw [walkAddress_skip hfront hlt, walkAddress, if_neg]
  rintro ⟨hpos, hbehind⟩
  rw [ptr_of_pos (Nat.pos_of_ne_zero hpos)] at hback
  obtain ⟨c, hc, rfl⟩ := List.mem_map.mp (List.mem_of_head? hback.symm)
  have hle := hys c (mem_free.mp hc).1
  omega

/-- `free`, with the entry behind the chunk and the one in front of it. -/
theorem Represents.free_eq (hr : h.Represents (xs ++ b :: ys))
    (hfront : Path h.next (ptr h.flp) ((Arena.free xs).map Block.addr) (ptr fp1))
    (hback : Path h.next (ptr fp1) ((Arena.free ys).map Block.addr) none)
    (hrounds : (xs ++ b :: ys).length < rounds) :
    h.free rounds (b.payload sizeofSize) =
      some (let h₁ := if fp1 ≠ 0 then (h.setNx b.addr 0).mergeUpper b.addr fp1 else
              h.setNx b.addr 0
            if lastEntry 0 (Arena.free xs) = 0 then { h₁ with flp := b.addr }
            else h₁.mergeLower b.addr (lastEntry 0 (Arena.free xs))) := by
  obtain ⟨hpos, hstop, -, htop⟩ := hr.lt (b := b) (by simp)
  have hpay : b.payload sizeofSize ≠ 0 := by
    unfold Block.payload
    omega
  have hsub : ulongSub (b.payload sizeofSize) sizeofSize = b.addr := by
    unfold Block.payload ulongSub
    unfold sizeofSize at *
    omega
  have hmem : ∀ i, i < b.addr ∨ b.addr + 8 ≤ i → (h.setNx b.addr 0).mem i = h.mem i :=
    fun i hi => setNx_mem (by omega)
  have hpath := hr.path_of_mem hmem (fun c hc => .inl (mem_free.mp hc).1) hfront
  have hwalk := hr.walkAddress_eq hpath hback.head? hrounds
  have hflp : (h.setNx b.addr 0).flp = h.flp := rfl
  rw [Heap.free, if_neg hpay, hsub]
  show (if (h.setNx b.addr 0).flp = 0 then _ else _) = _
  rw [hflp] at hwalk ⊢
  by_cases hzero : h.flp = 0
  · -- nothing is free
    rw [hzero] at hfront
    obtain ⟨hxs, hfp1⟩ : Arena.free xs = [] ∧ fp1 = 0 := by
      cases hl : Arena.free xs with
      | nil =>
        rw [hl] at hfront
        exact ⟨rfl, (ptr_inj hfront).symm⟩
      | cons c l =>
        rw [hl] at hfront
        exact absurd hfront.1 nofun
    rw [if_pos hzero, hxs, hfp1]
    rfl
  · rw [if_neg hzero, hwalk]
    by_cases hlast : lastEntry 0 (Arena.free xs) = 0
    -- the list is not empty, and no entry of it is in front of the chunk
    · have hfp1 : fp1 ≠ 0 := by
        rintro rfl
        rcases List.eq_nil_or_concat' (Arena.free xs) with hl | ⟨l, c, hl⟩
        · rw [hl] at hfront
          exact hzero (ptr_inj hfront)
        · rw [hl, lastEntry_concat] at hlast
          have hc : c ∈ Arena.free xs := by simp [hl]
          have hposc := (hr.lt (b := c) (by simp [(mem_free.mp hc).1])).1
          omega
      simp only [hlast, ne_eq, hfp1, not_false_eq_true, and_self, if_true]
    · simp only [hlast, and_false, if_false]

/-- Stores into the entry of the chunk and into the one in front of it. -/
theorem Represents.keeps_free {h' : Heap} (hr : h.Represents (xs ++ b :: ys))
    (hstart : h'.heapstart = h.heapstart) (hend : h'.heapend = h.heapend)
    (hmem : ∀ i, i < b.addr ∨ b.addr + 8 ≤ i →
      (∀ d ∈ Arena.free xs, i < d.addr ∨ d.addr + 8 ≤ i) → h'.mem i = h.mem i) :
    Keeps (xs ++ { b with used := false } :: ys) h h' := by
  refine ⟨hstart, hend, ?_⟩
  intro i hi
  have hleast := (hr.lt (b := b) (by simp)).2.2.1
  by_cases hin : i < b.addr ∨ b.addr + 8 ≤ i
  · by_cases hfree : ∀ d ∈ Arena.free xs, i < d.addr ∨ d.addr + 8 ≤ i
    · exact absurd (hmem i hin hfree) hi
    · push Not at hfree
      obtain ⟨d, hd, hle, hlt⟩ := hfree
      obtain ⟨hd, hused⟩ := mem_free.mp hd
      have hdl := (hr.lt (b := d) (by simp [hd])).2.2.1
      refine .inl ⟨d, by simp [hd], hused, hle, ?_⟩
      unfold Block.stop
      unfold sizeofSize at *
      omega
  · refine .inl ⟨{ b with used := false }, by simp, rfl, ?_⟩
    show b.addr ≤ i ∧ i < b.addr + sizeofSize + b.size
    unfold sizeofSize at *
    omega

/-- `free` does what the arena does when a block is given back, and stores into that chunk and the
free ones only. -/
theorem Represents.free (hr : h.Represents (xs ++ b :: ys)) (hb : b.used = true)
    (hrounds : (xs ++ b :: ys).length < rounds) :
    ∃ h', h.free rounds (b.payload sizeofSize) = some h' ∧
      h'.Represents (release sizeofSize (b.payload sizeofSize) (xs ++ b :: ys)) ∧
      h'.top = h.top ∧ Keeps (xs ++ { b with used := false } :: ys) h h' := by
  obtain ⟨fp1, hfront, hback, -⟩ := hr.chain_split_used hb
  obtain ⟨n, zs, hjoin, haddr, hu⟩ := exists_upper hr hback
  have htidy := hr.tidy.release (b.payload sizeofSize)
  rw [hr.free_eq hfront hback hrounds]
  rw [release_split hr.tidy (by decide), hjoin] at htidy ⊢
  generalize (if fp1 ≠ 0 then (h.setNx b.addr 0).mergeUpper b.addr fp1 else h.setNx b.addr 0) = h₁
    at hu ⊢
  obtain ⟨mid, hxs, hmid⟩ := tiles_append.mp hr.tidy.tiles
  have htiles : Tiles sizeofSize h.heapstart (xs ++ n :: zs) h.top := by
    rw [← hjoin]
    exact tiles_append.mpr ⟨mid, hxs, tiles_join ⟨hmid.1, hmid.2⟩⟩
  have hleast : ∀ c ∈ xs ++ n :: zs, sizeofSize ≤ c.size := by
    rw [← hjoin]
    intro c hc
    rcases List.mem_append.mp hc with hc | hc
    · exact hr.tidy.least c (by simp [hc])
    · refine least_join ?_ c hc
      intro d hd
      rcases List.mem_cons.mp hd with rfl | hd
      · exact hr.tidy.least b (by simp)
      · exact hr.tidy.least d (by simp [hd])
  -- in front, no two free chunks are next to each other, so that at most the last one is merged
  have hparted : xs.IsChain Parted := (List.isChain_append.mp hr.tidy.parted).1
  -- where the last chunk in front is in use, the chunk is only linked
  have hlink : (∀ d ∈ xs.getLast?, d.used = true) →
      (h₁.link (lastEntry 0 (Arena.free xs)) b.addr).Represents
          (xs.foldr (join sizeofSize) (n :: zs)) ∧
        (h₁.link (lastEntry 0 (Arena.free xs)) b.addr).top = h.top ∧
        Keeps (xs ++ { b with used := false } :: ys) h
          (h₁.link (lastEntry 0 (Arena.free xs)) b.addr) := by
    intro hused
    rw [foldr_join hparted fun d hd _ _ => .inl (hused d hd)] at htidy ⊢
    have hrep := hu.represents_link hr haddr hfront htidy
    rw [haddr] at hrep
    refine ⟨hrep, ?_, ?_⟩
    · rw [Represents.link_top, top, top, hu.brkval, hu.heapstart]
    · refine hr.keeps_free (link_heapstart.trans hu.heapstart) (link_heapend.trans hu.heapend) ?_
      intro i hi hfree
      rw [link_mem, hu.mem i (haddr ▸ hi)]
      rcases lastEntry_mem (Arena.free xs) with he | ⟨d, hd, he⟩
      · exact .inl he
      · have hd := hfree d hd
        omega
  rcases List.eq_nil_or_concat' (Arena.free xs) with hfree | ⟨front, d, hfree⟩
  · rw [hfree, lastEntry_nil, if_pos rfl]
    rw [hfree] at hlink
    refine ⟨_, rfl, hlink ?_⟩
    intro d hd
    by_contra hused
    have hmem : d ∈ Arena.free xs := mem_free.mpr ⟨List.mem_of_getLast? hd, by simpa using hused⟩
    simp [hfree] at hmem
  · have hdm : d ∈ Arena.free xs := by simp [hfree]
    obtain ⟨hdx, hdf⟩ := mem_free.mp hdm
    obtain ⟨hposd, hdstop, hdl, htop⟩ := hr.lt (b := d) (by simp [hdx])
    rw [hfree, lastEntry_concat] at hlink ⊢
    rw [if_neg hposd.ne']
    by_cases hadj : d.addr + sizeofSize + d.size = b.addr
    · -- the chunk in front is free
      obtain ⟨xs', rfl⟩ : ∃ xs', xs = xs' ++ [d] :=
        List.getLast?_eq_some_iff.mp ((hr.adjacent_front hdx).mp hadj)
      have hrow : (xs' ++ [d]).foldr (join sizeofSize) (n :: zs) =
          xs' ++ ⟨d.addr, d.size + (n.size + sizeofSize), false⟩ :: zs := by
        rw [foldr_join_concat hparted hdf, join, if_pos ⟨hdf, hu.free⟩]
      rw [hrow] at htidy ⊢
      obtain ⟨hrep, hmem⟩ := hu.represents_mergeLower hr haddr hdf hfront htiles hleast htidy
      rw [haddr] at hrep hmem
      refine ⟨_, rfl, hrep, ?_, ?_⟩
      · rw [top, top, mergeLower_brkval, mergeLower_heapstart, hu.brkval, hu.heapstart]
      · refine hr.keeps_free (mergeLower_heapstart.trans hu.heapstart)
          (mergeLower_heapend.trans hu.heapend) ?_
        intro i hi hfree
        rw [hmem i (hfree d hdm), hu.mem i (haddr ▸ hi)]
    · have hlower : h₁.mergeLower b.addr d.addr = h₁.link d.addr b.addr := by
        have hsz : (h₁.setNx d.addr b.addr).sz d.addr = d.size :=
          sz_setNx_self.trans (hu.header d (.inl hdx))
        rw [mergeLower, link, if_pos hposd.ne']
        simp only [hsz]
        rw [if_neg]
        rwa [ulong_of_lt (by omega)]
      rw [hlower]
      refine ⟨_, rfl, hlink ?_⟩
      intro c hc
      by_contra hused
      -- a free chunk at the end would be the one the list ends with
      have hlast := getLast?_free (by simpa using hused) hc
      rw [hfree, List.getLast?_concat, Option.some.injEq] at hlast
      subst hlast
      exact hadj ((hr.adjacent_front hdx).mpr hc)

end GeekOS.Memory.Heap
