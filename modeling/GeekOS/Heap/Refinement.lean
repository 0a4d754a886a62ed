import GeekOS.Heap.Malloc

/-!
# The heap as an arena

What the chunks of the heap mean: an arena of blocks, the free ones of which are linked in the order
of their addresses. `malloc` and `free` do on the memory what `Arena.alloc` and `Arena.release` do
on the blocks.

* `Represents`: the memory of the heap and the blocks it stands for;
* `Represents.malloc`, `Represents.malloc_none`: `malloc` takes the smallest chunk that is large
  enough, and returns null where there is neither such a chunk nor room behind the last one;
* `Represents.free`: `free` joins the chunk with the free chunks next to it;
* `Frees`: the bytes that the two functions may store into.
-/

namespace GeekOS.Memory.Heap

open Arena LinkedList

/-- Where the chunks end: `__brkval`, once it has been set. -/
def top (h : Heap) : ℕ := if h.brkval = 0 then h.heapstart else h.brkval

/-- The heap consists of these blocks. Each of them has its size in front, and the free ones are
linked, from `__flp` on. -/
structure Represents (h : Heap) (bs : List Block) : Prop where
  tidy : Tidy sizeofSize sizeofSize h.heapstart bs h.top
  header : ∀ b ∈ bs, h.sz b.addr = b.size
  chain : Path h.next (ptr h.flp) ((Arena.free bs).map Block.addr) none
  /-- The heap is behind the null pointer. -/
  start : sizeofSize ≤ h.heapstart
  top_le : h.top ≤ h.heapend
  heapend : h.heapend < 2 ^ 32

/-- A byte of a block that is not in use. -/
def Frees (bs : List Block) (i : ℕ) : Prop :=
  ∃ b ∈ bs, b.used = false ∧ b.addr ≤ i ∧ i < b.stop sizeofSize

variable {h h' : Heap} {bs xs ys l l₁ l₂ : List Block} {b c : Block} {len rounds n s p : ℕ}
  {fp1 fp2 fp1' : ℕ}

/-! ## What the blocks say about the memory -/

/-- Two entries of a row of chunks share no byte. -/
theorem apart_of_tiles {lo hi : ℕ} (htiles : Tiles sizeofSize lo bs hi)
    (hleast : ∀ b ∈ bs, sizeofSize ≤ b.size) (hb : b ∈ bs) (hc : c ∈ bs) (hne : b ≠ c) :
    Apart b c := by
  have hbl := hleast b hb
  have hcl := hleast c hc
  have hdisjoint := htiles.disjoint hb hc hne
  unfold Block.stop at hdisjoint
  unfold Apart
  unfold sizeofSize at *
  omega

theorem pairwise_apart_of_tiles {lo hi : ℕ} (htiles : Tiles sizeofSize lo bs hi)
    (hleast : ∀ b ∈ bs, sizeofSize ≤ b.size) (hl : l.Sublist bs) : l.Pairwise Apart := by
  refine (htiles.pairwise.sublist hl).imp_of_mem ?_
  intro b c hb hc hbc
  have hbl := hleast b (hl.subset hb)
  unfold Block.stop at hbc
  unfold Apart
  unfold sizeofSize at *
  omega

namespace Represents

theorem lt (hr : h.Represents bs) (hb : b ∈ bs) :
    0 < b.addr ∧ b.addr + sizeofSize + b.size ≤ h.top ∧ sizeofSize ≤ b.size ∧ h.top < 2 ^ 32 := by
  obtain ⟨hlo, hhi⟩ := hr.tidy.tiles.inside hb
  have hleast := hr.tidy.least b hb
  have hstart := hr.start
  have htop := hr.top_le
  have hend := hr.heapend
  unfold Block.stop at hhi
  unfold sizeofSize at *
  omega

/-- Two entries are the same or share no byte. -/
theorem apart (hr : h.Represents bs) (hb : b ∈ bs) (hc : c ∈ bs) (hne : b ≠ c) :
    b.addr + sizeofSize + b.size ≤ c.addr ∨ c.addr + sizeofSize + c.size ≤ b.addr :=
  hr.tidy.tiles.disjoint hb hc hne

/-- The chunks in front of a chunk, and those behind it. -/
theorem front_back (hr : h.Represents (xs ++ b :: ys)) :
    (∀ c ∈ xs, c.addr + sizeofSize + c.size ≤ b.addr) ∧
      ∀ c ∈ ys, b.addr + sizeofSize + b.size ≤ c.addr := by
  obtain ⟨mid, hxs, haddr, hys⟩ := tiles_append.mp hr.tidy.tiles
  exact ⟨fun c hc => haddr ▸ (hxs.inside hc).2, fun c hc => (hys.inside hc).1⟩

theorem length_lt (hr : h.Represents bs) : bs.length < 2 ^ 32 := by
  have hlen := hr.tidy.tiles.length_le
  have htop := hr.top_le
  have hend := hr.heapend
  unfold sizeofSize at hlen
  omega

end Represents

/-! ## The loops -/

/-- The first loop goes past entries that are not of the exact size. -/
theorem walkExact_skip (hpath : Path h.next (ptr fp1) (l.map Block.addr) (ptr fp1'))
    (hsz : ∀ b ∈ l, h.sz b.addr = b.size) (hne : ∀ b ∈ l, b.size ≠ len) :
    h.walkExact len (n + l.length) s fp1 fp2 =
      h.walkExact len n ((l.map Block.size).foldl (narrow len) s) fp1' (lastEntry fp2 l) := by
  induction l generalizing s fp1 fp2 with
  | nil =>
    rw [ptr_inj hpath]
    rfl
  | cons b l ih =>
    obtain ⟨hfp1, hpath⟩ := hpath
    obtain ⟨rfl, hpos⟩ := ptr_eq_some.mp hfp1
    have hb := hsz b List.mem_cons_self
    rw [List.length_cons, ← Nat.add_assoc, walkExact, if_neg hpos.ne', hb,
      if_neg (hne b List.mem_cons_self), lastEntry_cons, List.map_cons, List.foldl_cons]
    exact ih hpath (fun c hc => hsz c (List.mem_cons_of_mem _ hc))
      fun c hc => hne c (List.mem_cons_of_mem _ hc)

/-- The second loop goes past entries of another size. -/
theorem walkSize_skip (hpath : Path h.next (ptr fp1) (l.map Block.addr) (ptr fp1'))
    (hsz : ∀ b ∈ l, h.sz b.addr = b.size) (hne : ∀ b ∈ l, b.size ≠ s) :
    h.walkSize s (n + l.length) fp1 fp2 = h.walkSize s n fp1' (lastEntry fp2 l) := by
  induction l generalizing fp1 fp2 with
  | nil =>
    rw [ptr_inj hpath]
    rfl
  | cons b l ih =>
    obtain ⟨hfp1, hpath⟩ := hpath
    obtain ⟨rfl, hpos⟩ := ptr_eq_some.mp hfp1
    have hb := hsz b List.mem_cons_self
    rw [List.length_cons, ← Nat.add_assoc, walkSize, if_neg hpos.ne', hb,
      if_neg (hne b List.mem_cons_self), lastEntry_cons]
    exact ih hpath (fun c hc => hsz c (List.mem_cons_of_mem _ hc))
      fun c hc => hne c (List.mem_cons_of_mem _ hc)

/-- The loop of `free` goes past entries in front of the new one. -/
theorem walkAddress_skip (hpath : Path h.next (ptr fp1) (l.map Block.addr) (ptr fp1'))
    (hlt : ∀ b ∈ l, b.addr < p) :
    h.walkAddress p (n + l.length) fp1 fp2 = h.walkAddress p n fp1' (lastEntry fp2 l) := by
  induction l generalizing fp1 fp2 with
  | nil =>
    rw [ptr_inj hpath]
    rfl
  | cons b l ih =>
    obtain ⟨hfp1, hpath⟩ := hpath
    obtain ⟨rfl, hpos⟩ := ptr_eq_some.mp hfp1
    rw [List.length_cons, ← Nat.add_assoc, walkAddress,
      if_pos ⟨hpos.ne', hlt b List.mem_cons_self⟩, lastEntry_cons]
    exact ih hpath fun c hc => hlt c (List.mem_cons_of_mem _ hc)

variable (len) in
/-- The closest match of a row of sizes: none of them is between it and the request. -/
theorem foldl_narrow (sizes : List ℕ) :
    (sizes.foldl (narrow len) 0 = 0 ∧ ∀ size ∈ sizes, size ≤ len) ∨
      (sizes.foldl (narrow len) 0 ∈ sizes ∧ len < sizes.foldl (narrow len) 0 ∧
        ∀ size ∈ sizes, len < size → sizes.foldl (narrow len) 0 ≤ size) := by
  induction sizes using List.reverseRecOn with
  | nil => simp
  | append_singleton sizes size ih =>
    -- `s` is the closest match of the sizes in front of the last one
    rw [List.foldl_append, List.foldl_cons, List.foldl_nil]
    generalize sizes.foldl (narrow len) 0 = s at ih ⊢
    unfold narrow
    split
    next hlt =>
      refine .inr ⟨by simp, hlt.1, ?_⟩
      intro size' hmem hlen
      rcases List.mem_append.mp hmem with hmem | hmem
      · rcases ih with ⟨-, hle⟩ | ⟨-, hpos, hmin⟩
        · exact absurd (hle size' hmem) (by omega)
        · have hle := hmin size' hmem hlen
          omega
      · rw [List.mem_singleton.mp hmem]
    next hge =>
      rcases ih with ⟨hs, hle⟩ | ⟨hmem, hlt, hmin⟩
      · refine .inl ⟨hs, ?_⟩
        intro size' hsize'
        rcases List.mem_append.mp hsize' with hsize' | hsize'
        · exact hle size' hsize'
        · rw [List.mem_singleton.mp hsize']
          omega
      · refine .inr ⟨List.mem_append_left _ hmem, hlt, ?_⟩
        intro size' hsize' hlen
        rcases List.mem_append.mp hsize' with hsize' | hsize'
        · exact hmin size' hsize' hlen
        · rw [List.mem_singleton.mp hsize'] at hlen ⊢
          omega

/-! ## Stores into the heap -/

theorem lastEntry_mem (l : List Block) : lastEntry 0 l = 0 ∨ ∃ d ∈ l, lastEntry 0 l = d.addr := by
  rcases List.eq_nil_or_concat' l with rfl | ⟨front, c, rfl⟩
  · exact .inl rfl
  · exact .inr ⟨c, by simp, lastEntry_concat⟩

/-- What a call leaves alone: the ends of the heap, and every byte outside of the chunks that are
not in use and of the memory that is taken from behind the chunks. -/
structure Keeps (bs : List Block) (h h' : Heap) : Prop where
  heapstart : h'.heapstart = h.heapstart
  heapend : h'.heapend = h.heapend
  mem : ∀ i, h'.mem i ≠ h.mem i → Frees bs i ∨ h.top ≤ i ∧ i < h'.top

/-- The heap with one more chunk behind the others. -/
def extended (h : Heap) (len : ℕ) : Heap :=
  { h with brkval := h.top + sizeofSize + len }.setSz h.top len

namespace Represents

variable {e v : ℕ}

/-- A store to the link of an entry, or to `__flp`, changes no size. -/
theorem sz_link {lo hi : ℕ} (htiles : Tiles sizeofSize lo bs hi)
    (hleast : ∀ b ∈ bs, sizeofSize ≤ b.size) (he : e = 0 ∨ ∃ d ∈ bs, e = d.addr) (hc : c ∈ bs) :
    (h.link e v).sz c.addr = h.sz c.addr := by
  apply sz_congr
  intro i hle hlt
  apply link_mem
  rcases he with he | ⟨d, hd, rfl⟩
  · exact .inl he
  · by_cases hdc : d = c
    · rw [hdc]
      omega
    · have hapart := apart_of_tiles htiles hleast hd hc hdc
      unfold Apart at hapart
      omega

/-- It changes bytes of a free chunk only. -/
theorem link_keeps (hr : h.Represents bs)
    (he : e = 0 ∨ ∃ d ∈ bs, d.used = false ∧ e = d.addr) : Keeps bs h (h.link e v) where
  heapstart := link_heapstart
  heapend := link_heapend
  mem i hi := by
    rcases he with he | ⟨d, hd, hfree, rfl⟩
    · exact absurd (link_mem (.inl he)) hi
    · refine .inl ⟨d, hd, hfree, ?_⟩
      have hdl := (hr.lt hd).2.2.1
      have hmem : ¬(i < d.addr + 4 ∨ d.addr + 8 ≤ i) := fun h => hi (link_mem (.inr h))
      unfold Block.stop
      unfold sizeofSize at *
      omega

theorem link_top : (h.link e v).top = h.top := by
  rw [top, top, link_brkval, link_heapstart]

/-- The two parts of the free list, in front of a free chunk and behind it. -/
theorem chain_split (hr : h.Represents (xs ++ b :: ys)) (hb : b.used = false) :
    Path h.next (ptr h.flp) ((Arena.free xs).map Block.addr) (ptr b.addr) ∧
      Path h.next (h.next b.addr) ((Arena.free ys).map Block.addr) none := by
  have hchain := hr.chain
  have hfree : Arena.free (b :: ys) = b :: Arena.free ys := by
    simp [Arena.free, hb]
  rw [free_append, hfree, List.map_append, List.map_cons] at hchain
  obtain ⟨r, hxs, rfl, hys⟩ := path_append.mp hchain
  have hpos := (hr.lt (b := b) (by simp)).1
  exact ⟨by rwa [ptr_of_pos hpos], hys⟩

/-- The parts of the free list on both sides of a chunk that is in use. -/
theorem chain_split_used (hr : h.Represents (xs ++ b :: ys)) (hb : b.used = true) :
    ∃ fp1, Path h.next (ptr h.flp) ((Arena.free xs).map Block.addr) (ptr fp1) ∧
      Path h.next (ptr fp1) ((Arena.free ys).map Block.addr) none ∧
      ptr fp1 = ((Arena.free ys).map Block.addr).head? := by
  have hchain := hr.chain
  have hfree : Arena.free (b :: ys) = Arena.free ys := by
    simp [Arena.free, hb]
  rw [free_append, hfree, List.map_append] at hchain
  obtain ⟨r, hxs, hys⟩ := path_append.mp hchain
  refine ⟨r.getD 0, ?_⟩
  have hptr : ptr (r.getD 0) = r := by
    rw [hys.head?]
    cases hfirst : Arena.free ys with
    | nil => rfl
    | cons c cs =>
      have hc : c ∈ Arena.free ys := by simp [hfirst]
      exact ptr_of_pos (hr.lt (by simp [(mem_free.mp hc).1])).1
  rw [hptr]
  exact ⟨hxs, hys, hys.head?⟩

/-- The end of the free list in front of a chunk is apart from what is behind. -/
theorem free_apart {lo hi : ℕ} (htiles : Tiles sizeofSize lo (xs ++ ys) hi)
    (hleast : ∀ b ∈ xs ++ ys, sizeofSize ≤ b.size) :
    (Arena.free xs).Pairwise Apart ∧
      ∀ c ∈ ys, lastEntry 0 (Arena.free xs) = 0 ∨
        c.addr + 8 ≤ lastEntry 0 (Arena.free xs) ∨ lastEntry 0 (Arena.free xs) + 8 ≤ c.addr := by
  have hsub : (Arena.free xs).Sublist (xs ++ ys) :=
    List.filter_sublist.trans (List.sublist_append_left _ _)
  refine ⟨pairwise_apart_of_tiles htiles hleast hsub, ?_⟩
  intro c hc
  rcases lastEntry_mem (Arena.free xs) with he | ⟨d, hd, he⟩
  · exact .inl he
  · obtain ⟨mid, hxs, hys⟩ := tiles_append.mp htiles
    have hdx := (hxs.inside (mem_free.mp hd).1).2
    have hcy := (hys.inside hc).1
    have hdl := hleast d (hsub.subset hd)
    rw [he]
    unfold Block.stop at hdx
    unfold sizeofSize at *
    omega

variable (xs) in
/-- The last entry in front of a chunk is a free chunk. -/
theorem lastEntry_free (ys : List Block) (b : Block) :
    lastEntry 0 (Arena.free xs) = 0 ∨
      ∃ d ∈ xs ++ b :: ys, d.used = false ∧ lastEntry 0 (Arena.free xs) = d.addr := by
  rcases lastEntry_mem (Arena.free xs) with he | ⟨d, hd, he⟩
  · exact .inl he
  · obtain ⟨hd, hfree⟩ := mem_free.mp hd
    exact .inr ⟨d, List.mem_append_left _ hd, hfree, he⟩

/-- A chunk is taken off the free list as it is. -/
theorem unlink (hr : h.Represents (xs ++ b :: ys)) (hb : b.used = false)
    (htidy : Tidy sizeofSize sizeofSize h.heapstart (xs ++ ({ b with used := true } :: ys)) h.top) :
    (h.link (lastEntry 0 (Arena.free xs)) (h.nx b.addr)).Represents
        (xs ++ ({ b with used := true } :: ys)) ∧
      Keeps (xs ++ b :: ys) h (h.link (lastEntry 0 (Arena.free xs)) (h.nx b.addr)) := by
  obtain ⟨hfront, hback⟩ := hr.chain_split hb
  obtain ⟨hapart, hys⟩ := free_apart hr.tidy.tiles hr.tidy.least
  have hpos : ∀ c ∈ Arena.free xs, 0 < c.addr := fun c hc =>
    (hr.lt (List.mem_append_left _ (mem_free.mp hc).1)).1
  have he := lastEntry_free xs ys b
  have he' : lastEntry 0 (Arena.free xs) = 0 ∨
      ∃ d ∈ xs ++ b :: ys, lastEntry 0 (Arena.free xs) = d.addr :=
    he.imp_right fun ⟨d, hd, _, heq⟩ => ⟨d, hd, heq⟩
  refine ⟨⟨?_, ?_, ?_, ?_, ?_, ?_⟩, hr.link_keeps he⟩
  · rwa [link_heapstart, link_top]
  · intro c hc
    -- the chunks have the addresses and the sizes that they had before
    obtain ⟨d, hd, haddr, hsize⟩ : ∃ d ∈ xs ++ b :: ys, d.addr = c.addr ∧ d.size = c.size := by
      rcases List.mem_append.mp hc with hc | hc
      · exact ⟨c, List.mem_append_left _ hc, rfl, rfl⟩
      · rcases List.mem_cons.mp hc with rfl | hc
        · exact ⟨b, by simp, rfl, rfl⟩
        · exact ⟨c, by simp [hc], rfl, rfl⟩
    rw [← haddr, ← hsize, sz_link hr.tidy.tiles hr.tidy.least he' hd, hr.header d hd]
  · have hfree : Arena.free (xs ++ ({ b with used := true } :: ys)) =
        Arena.free xs ++ Arena.free ys := by
      simp [Arena.free]
    rw [hfree, List.map_append]
    -- the last entry in front of the chunk leads to the one behind it now
    refine path_append.mpr ⟨ptr (h.nx b.addr), ?_, ?_⟩
    · exact path_link hfront hapart hpos (nx_lt h b.addr)
    · exact path_link_of_apart hback fun c hc =>
        hys c (List.mem_cons_of_mem _ (mem_free.mp hc).1)
  · rw [link_heapstart]
    exact hr.start
  · rw [link_top, link_heapend]
    exact hr.top_le
  · rw [link_heapend]
    exact hr.heapend

/-- The upper part of a free chunk is cut off. -/
theorem split (hr : h.Represents (xs ++ b :: ys)) (hb : b.used = false) (hlen : len ≤ b.size)
    (hrest : sizeofFreelist ≤ b.size - len)
    (htidy : Tidy sizeofSize sizeofSize h.heapstart
      (xs ++ ({ b with size := b.size - len - sizeofSize } ::
        ⟨b.addr + (b.size - len), len, true⟩ :: ys)) h.top) :
    ((h.setSz (b.addr + (b.size - len)) len).setSz b.addr
        (b.size - len - sizeofSize)).Represents
        (xs ++ ({ b with size := b.size - len - sizeofSize } ::
          ⟨b.addr + (b.size - len), len, true⟩ :: ys)) ∧
      Keeps (xs ++ b :: ys) h ((h.setSz (b.addr + (b.size - len)) len).setSz b.addr
        (b.size - len - sizeofSize)) := by
  have hbm : b ∈ xs ++ b :: ys := by simp
  obtain ⟨hpos, hstop, -, htop⟩ := hr.lt hbm
  obtain ⟨hfront, hback⟩ := hr.front_back
  unfold sizeofFreelist at hrest
  -- bytes outside of the two sizes are as they were
  have hmem : ∀ i, (i < b.addr ∨ b.addr + 4 ≤ i) →
      (i < b.addr + (b.size - len) ∨ b.addr + (b.size - len) + 4 ≤ i) →
      ((h.setSz (b.addr + (b.size - len)) len).setSz b.addr (b.size - len - sizeofSize)).mem i =
        h.mem i := by
    intro i hi hi'
    rw [setSz_mem hi, setSz_mem hi']
  have hother : ∀ c, c ∈ xs ∨ c ∈ ys → ∀ i, c.addr ≤ i → i < c.addr + 8 →
      ((h.setSz (b.addr + (b.size - len)) len).setSz b.addr (b.size - len - sizeofSize)).mem i =
        h.mem i := by
    intro c hc i hle hlt
    unfold sizeofSize at hfront hback
    rcases hc with hc | hc
    · have hcl := (hr.lt (b := c) (by simp [hc])).2.2.1
      have hcb := hfront c hc
      unfold sizeofSize at hcl
      apply hmem <;> omega
    · have hcb := hback c hc
      apply hmem <;> omega
  have hheader : ∀ c, c ∈ xs ∨ c ∈ ys →
      ((h.setSz (b.addr + (b.size - len)) len).setSz b.addr (b.size - len - sizeofSize)).sz
        c.addr = c.size := by
    intro c hc
    rw [← hr.header c (by simp only [List.mem_append, List.mem_cons]; tauto)]
    exact sz_congr fun i hle hlt => hother c hc i hle (by omega)
  refine ⟨⟨htidy, ?_, ?_, hr.start, hr.top_le, hr.heapend⟩, rfl, rfl, ?_⟩
  · intro c hc
    simp only [List.mem_append, List.mem_cons] at hc
    rcases hc with hc | rfl | rfl | hc
    · exact hheader c (.inl hc)
    · exact sz_setSz (by unfold sizeofSize at *; omega)
    · show Heap.sz _ (b.addr + (b.size - len)) = len
      rw [sz_congr (h := h.setSz (b.addr + (b.size - len)) len)]
      · exact sz_setSz (by omega)
      · intro i hle _
        exact setSz_mem (by omega)
    · exact hheader c (.inr hc)
  · -- the free list goes through the same addresses
    have hfree : (Arena.free (xs ++ ({ b with size := b.size - len - sizeofSize } ::
        ⟨b.addr + (b.size - len), len, true⟩ :: ys))).map Block.addr =
        (Arena.free (xs ++ b :: ys)).map Block.addr := by
      simp [Arena.free, hb]
    rw [hfree]
    refine hr.chain.congr ?_
    intro n hn
    obtain ⟨c, hc, rfl⟩ := List.mem_map.mp hn
    have hc := (mem_free.mp hc).1
    simp only [List.mem_append, List.mem_cons] at hc
    apply next_congr
    intro i hle hlt
    rcases hc with hc | rfl | hc
    · exact hother c (.inl hc) i (by omega) hlt
    · exact hmem i (by omega) (by omega)
    · exact hother c (.inr hc) i (by omega) hlt
  · intro i hi
    refine .inl ⟨b, hbm, hb, ?_⟩
    have hout : ¬((i < b.addr ∨ b.addr + 4 ≤ i) ∧
        (i < b.addr + (b.size - len) ∨ b.addr + (b.size - len) + 4 ≤ i)) :=
      fun h => hi (hmem i h.1 h.2)
    unfold Block.stop
    unfold sizeofSize at *
    omega

/-- What step 3 of `malloc` computes. -/
theorem extend_eq (hr : h.Represents bs) (hlen : len < 2 ^ 32) :
    h.extend len =
      if h.top + sizeofSize + len ≤ h.heapend then
        (h.top + sizeofSize, h.extended len)
      else (0, { h with brkval := h.top }) := by
  have hstart := hr.start
  have hle := hr.tidy.tiles.le
  have htop := hr.top_le
  have hend := hr.heapend
  have hbrk : (if h.brkval = 0 then { h with brkval := h.heapstart } else h) =
      { h with brkval := h.top } := by
    unfold top
    split <;> rfl
  have havail : ulongSub h.heapend h.top = h.heapend - h.top := by
    unfold ulongSub
    omega
  rw [extend, hbrk]
  show (if len ≤ ulongSub h.heapend h.top ∧ ulong (len + sizeofSize) ≤ ulongSub h.heapend h.top
    then (h.top + sizeofSize,
      { h with brkval := ulong (h.top + ulong (len + sizeofSize)) }.setSz h.top len)
    else (0, { h with brkval := h.top })) = _
  rw [havail]
  unfold sizeofSize at *
  by_cases hroom : h.top + 4 + len ≤ h.heapend
  · have hsum : ulong (len + 4) = len + 4 := ulong_of_lt (by omega)
    have hbrkval : ulong (h.top + ulong (len + 4)) = h.top + 4 + len := by
      rw [hsum, ulong_of_lt (by omega)]
      omega
    rw [if_pos hroom, if_pos ⟨by omega, by rw [hsum]; omega⟩, hbrkval]
    rfl
  · -- a sum that does not fit into 32 bits belongs to a request that is too large by itself
    rw [if_neg hroom, if_neg]
    rintro ⟨hfits, hsum⟩
    by_cases hwrap : len + 4 < 2 ^ 32
    · rw [ulong_of_lt hwrap] at hsum
      omega
    · omega

/-- A chunk is made behind the others. -/
theorem extend (hr : h.Represents bs)
    (hroom : h.top + sizeofSize + len ≤ h.heapend)
    (htidy : Tidy sizeofSize sizeofSize h.heapstart (bs ++ [⟨h.top, len, true⟩])
      (h.top + sizeofSize + len)) :
    (h.extended len).Represents (bs ++ [⟨h.top, len, true⟩]) ∧
      (h.extended len).top = h.top + sizeofSize + len ∧ Keeps bs h (h.extended len) := by
  have hend := hr.heapend
  have htop : (h.extended len).top = h.top + sizeofSize + len := by
    refine if_neg ?_
    show ¬h.top + sizeofSize + len = 0
    unfold sizeofSize
    omega
  -- only the size of the new chunk is stored
  have hmem : ∀ i, (i < h.top ∨ h.top + 4 ≤ i) →
      (h.extended len).mem i = h.mem i :=
    fun i hi => setSz_mem hi
  have hold : ∀ c ∈ bs, ∀ i, i < c.addr + 8 →
      (h.extended len).mem i = h.mem i := by
    intro c hc i hlt
    obtain ⟨-, hstop, hcl, -⟩ := hr.lt hc
    apply hmem
    unfold sizeofSize at *
    omega
  refine ⟨⟨?_, ?_, ?_, hr.start, ?_, hend⟩, htop, rfl, rfl, ?_⟩
  · rw [htop]
    exact htidy
  · intro c hc
    rcases List.mem_append.mp hc with hc | hc
    · rw [← hr.header c hc]
      exact sz_congr fun i _ hlt => hold c hc i (by omega)
    · obtain rfl := List.mem_singleton.mp hc
      exact sz_setSz (by unfold sizeofSize at *; omega)
  · have hfree : Arena.free (bs ++ [⟨h.top, len, true⟩]) = Arena.free bs := by
      simp [Arena.free]
    rw [hfree]
    refine hr.chain.congr ?_
    intro n hn
    obtain ⟨c, hc, rfl⟩ := List.mem_map.mp hn
    exact next_congr fun i _ hlt => hold c (mem_free.mp hc).1 i hlt
  · rw [htop]
    exact hroom
  · intro i hi
    have hin : ¬(i < h.top ∨ h.top + 4 ≤ i) := fun h => hi (hmem i h)
    refine .inr ?_
    rw [htop]
    unfold sizeofSize
    omega

/-- Nothing but `__brkval` is set. -/
theorem setBrkval (hr : h.Represents bs) :
    ({ h with brkval := h.top } : Heap).Represents bs ∧
      ({ h with brkval := h.top } : Heap).top = h.top ∧ Keeps bs h { h with brkval := h.top } := by
  have hpos : h.top ≠ 0 := by
    have hstart := hr.start
    have hle := hr.tidy.tiles.le
    unfold sizeofSize at hstart
    omega
  have htop : ({ h with brkval := h.top } : Heap).top = h.top := if_neg hpos
  refine ⟨⟨?_, hr.header, hr.chain, hr.start, ?_, hr.heapend⟩, htop, rfl, rfl, ?_⟩
  · rw [htop]
    exact hr.tidy
  · rw [htop]
    exact hr.top_le
  · intro i hi
    exact absurd rfl hi

/-! ## `malloc` -/

/-- A chunk has room for a pointer at least. -/
theorem request_eq (len : ℕ) :
    (if len < sizeofFreelist - sizeofSize then sizeofFreelist - sizeofSize else len) =
      max len sizeofSize := by
  unfold sizeofFreelist sizeofSize
  split <;> omega

/-- The first loop finds a chunk of the exact size. -/
theorem walkExact_found (hr : h.Represents (xs ++ b :: ys)) (hb : b.used = false)
    (hxs : ∀ c ∈ xs, c.used = false → c.size ≠ b.size)
    (hrounds : (xs ++ b :: ys).length < rounds) :
    h.walkExact b.size rounds 0 h.flp 0 =
      some (.found b.addr (lastEntry 0 (Arena.free xs))) := by
  obtain ⟨hpath, -⟩ := hr.chain_split hb
  have hlen : (Arena.free xs).length ≤ xs.length := List.length_filter_le ..
  obtain ⟨n, rfl⟩ : ∃ n, rounds = n + 1 + (Arena.free xs).length := by
    refine ⟨rounds - 1 - (Arena.free xs).length, ?_⟩
    simp only [List.length_append, List.length_cons] at hrounds
    omega
  have hheader : ∀ c ∈ Arena.free xs, h.sz c.addr = c.size := fun c hc =>
    hr.header c (List.mem_append_left _ (mem_free.mp hc).1)
  have hne : ∀ c ∈ Arena.free xs, c.size ≠ b.size := fun c hc =>
    hxs c (mem_free.mp hc).1 (mem_free.mp hc).2
  have hpos := (hr.lt (b := b) (by simp)).1
  rw [walkExact_skip hpath hheader hne, walkExact, if_neg hpos.ne', hr.header b (by simp),
    if_pos rfl]

/-- The second loop finds the chunk of the closest size. -/
theorem walkSize_found (hr : h.Represents (xs ++ b :: ys)) (hb : b.used = false)
    (hxs : ∀ c ∈ xs, c.used = false → c.size ≠ b.size)
    (hrounds : (xs ++ b :: ys).length < rounds) :
    h.walkSize b.size rounds h.flp 0 = some (some (b.addr, lastEntry 0 (Arena.free xs))) := by
  obtain ⟨hpath, -⟩ := hr.chain_split hb
  have hlen : (Arena.free xs).length ≤ xs.length := List.length_filter_le ..
  obtain ⟨n, rfl⟩ : ∃ n, rounds = n + 1 + (Arena.free xs).length := by
    refine ⟨rounds - 1 - (Arena.free xs).length, ?_⟩
    simp only [List.length_append, List.length_cons] at hrounds
    omega
  have hheader : ∀ c ∈ Arena.free xs, h.sz c.addr = c.size := fun c hc =>
    hr.header c (List.mem_append_left _ (mem_free.mp hc).1)
  have hne : ∀ c ∈ Arena.free xs, c.size ≠ b.size := fun c hc =>
    hxs c (mem_free.mp hc).1 (mem_free.mp hc).2
  have hpos := (hr.lt (b := b) (by simp)).1
  rw [walkSize_skip hpath hheader hne, walkSize, if_neg hpos.ne', hr.header b (by simp),
    if_pos rfl]

/-- The first loop comes to the end of the free list where no chunk has the exact size. -/
theorem walkExact_closest (hr : h.Represents bs) (hne : ∀ c ∈ bs, c.used = false → c.size ≠ len)
    (hrounds : bs.length < rounds) :
    h.walkExact len rounds 0 h.flp 0 =
      some (.closest (((Arena.free bs).map Block.size).foldl (narrow len) 0)) := by
  have hlen : (Arena.free bs).length ≤ bs.length := List.length_filter_le ..
  obtain ⟨n, rfl⟩ : ∃ n, rounds = n + 1 + (Arena.free bs).length := by
    exact ⟨rounds - 1 - (Arena.free bs).length, by omega⟩
  have hpath : Path h.next (ptr h.flp) ((Arena.free bs).map Block.addr) (ptr 0) := hr.chain
  rw [walkExact_skip hpath (fun c hc => hr.header c (mem_free.mp hc).1)
    fun c hc => hne c (mem_free.mp hc).1 (mem_free.mp hc).2, walkExact, if_pos rfl]

/-- The closest size that the first loop comes to is that of the smallest chunk that is large
enough, if there is one. -/
theorem foldl_narrow_eq (hne : ∀ c ∈ bs, c.used = false → c.size ≠ len) :
    ((Arena.free bs).map Block.size).foldl (narrow len) 0 = (closest len bs).getD 0 := by
  have hmem : ∀ size, size ∈ (Arena.free bs).map Block.size ↔
      ∃ c ∈ bs, c.used = false ∧ c.size = size := by
    intro size
    simp only [List.mem_map, mem_free, and_assoc]
  rcases foldl_narrow len ((Arena.free bs).map Block.size) with ⟨hz, hle⟩ | ⟨hin, hlt, hmin⟩
  · have hnone : closest len bs = none := by
      apply closest_eq_none.mpr
      intro c hc hfree
      have hle := hle c.size ((hmem _).mpr ⟨c, hc, hfree, rfl⟩)
      have hne := hne c hc hfree
      omega
    rw [hz, hnone, Option.getD_none]
  · have hsome : closest len bs =
        some (((Arena.free bs).map Block.size).foldl (narrow len) 0) := by
      refine closest_eq_some.mpr ⟨(hmem _).mp hin, hlt.le, ?_⟩
      intro c hc hfree hle
      refine hmin c.size ((hmem _).mpr ⟨c, hc, hfree, rfl⟩) ?_
      have hne := hne c hc hfree
      omega
    rw [hsome, Option.getD_some]

/-- `malloc` serves a request as the arena does: from the smallest free chunk that is large enough,
or from behind the chunks. -/
theorem malloc {bs' : List Block} {top' : ℕ} (hr : h.Represents bs) (hlen : len < 2 ^ 32)
    (hrounds : bs.length < rounds)
    (halloc : alloc sizeofSize sizeofSize h.heapend (max len sizeofSize) bs h.top =
      some (p, bs', top')) :
    ∃ h', h.malloc rounds len = some (p, h') ∧ h'.Represents bs' ∧ h'.top = top' ∧ Keeps bs h h' := by
  have hleast : sizeofSize ≤ max len sizeofSize := Nat.le_max_right ..
  have hlt : max len sizeofSize < 2 ^ 32 := by
    unfold sizeofSize
    omega
  have htidy := hr.tidy.alloc hleast halloc
  rw [Heap.malloc, request_eq]
  generalize max len sizeofSize = len at *
  rcases alloc_cases sizeofSize sizeofSize h.heapend len bs h.top with
    ⟨xs, b, ys, rfl, hb, hclosest, hle, hxs, heq⟩ | ⟨hsmall, hroom, heq⟩ | ⟨-, -, heq⟩
  · obtain ⟨rfl, rfl, rfl⟩ : _ ∧ _ ∧ _ := by simpa using heq.symm.trans halloc
    have hbm : b ∈ xs ++ b :: ys := by simp
    obtain ⟨hpos, hstop, -, htop⟩ := hr.lt hbm
    unfold sizeofSize at hstop
    by_cases hexact : b.size = len
    · -- a chunk of the exact size
      subst hexact
      have hwhole : b.size - b.size < sizeofSize + sizeofSize := by
        unfold sizeofSize
        omega
      rw [hr.walkExact_found hb hxs hrounds]
      rw [handedOut, if_pos hwhole]
      rw [carve, if_pos hwhole] at htidy ⊢
      obtain ⟨hrep, hkeeps⟩ := hr.unlink hb htidy
      exact ⟨_, rfl, hrep, link_top, hkeeps⟩
    · have hne : ∀ c ∈ xs ++ b :: ys, c.used = false → c.size ≠ len := by
        intro c hc hfree hsize
        have hmin := (closest_eq_some.mp hclosest).2.2 c hc hfree hsize.ge
        omega
      rw [hr.walkExact_closest hne hrounds, foldl_narrow_eq hne, hclosest, Option.getD_some]
      have hsub : ulongSub b.size len = b.size - len := by
        unfold ulongSub
        omega
      show ∃ h', (if b.size ≠ 0 then _ else _) = _ ∧ _
      rw [if_pos (by omega), hsub, hr.walkSize_found hb hxs hrounds]
      by_cases hwhole : b.size - len < sizeofSize + sizeofSize
      · -- the rest is too small for an entry
        rw [handedOut, if_pos hwhole]
        rw [carve, if_pos hwhole] at htidy ⊢
        rw [if_pos (show b.size - len < sizeofFreelist from hwhole)]
        obtain ⟨hrep, hkeeps⟩ := hr.unlink hb htidy
        refine ⟨_, ?_, hrep, link_top, hkeeps⟩
        exact if_pos rfl
      · rw [handedOut, if_neg hwhole]
        rw [carve, if_neg hwhole] at htidy ⊢
        rw [if_neg (show ¬b.size - len < sizeofFreelist from hwhole)]
        have hrest : sizeofFreelist ≤ b.size - len := Nat.le_of_not_lt hwhole
        obtain ⟨hrep, hkeeps⟩ := hr.split hb hle hrest htidy
        refine ⟨_, ?_, hrep, rfl, hkeeps⟩
        have hfp2 : ulong (b.addr + (b.size - len)) = b.addr + (b.size - len) :=
          ulong_of_lt (by omega)
        have hrest' : ulongSub (b.size - len) sizeofSize = b.size - len - sizeofSize := by
          unfold ulongSub
          unfold sizeofFreelist at hrest
          unfold sizeofSize
          omega
        show (if len = b.size then _ else _) = _
        rw [if_neg (Ne.symm hexact), hsub]
        simp only [hfp2, hrest']
  · -- no chunk is large enough
    obtain ⟨rfl, rfl, rfl⟩ : _ ∧ _ ∧ _ := by simpa using heq.symm.trans halloc
    have hne : ∀ c ∈ bs, c.used = false → c.size ≠ len := fun c hc hfree =>
      (hsmall c hc hfree).ne
    rw [hr.walkExact_closest hne hrounds, foldl_narrow_eq hne, closest_eq_none.mpr hsmall]
    obtain ⟨hrep, htop, hkeeps⟩ := hr.extend hroom htidy
    refine ⟨_, ?_, hrep, htop, hkeeps⟩
    show some (h.extend len) = _
    rw [hr.extend_eq hlt, if_pos hroom]
  · rw [halloc] at heq
    exact absurd heq (Option.some_ne_none _)

/-- `malloc` returns null where the arena cannot serve the request. -/
theorem malloc_none (hr : h.Represents bs) (hlen : len < 2 ^ 32) (hrounds : bs.length < rounds)
    (halloc : alloc sizeofSize sizeofSize h.heapend (max len sizeofSize) bs h.top = none) :
    ∃ h', h.malloc rounds len = some (0, h') ∧ h'.Represents bs ∧ h'.top = h.top ∧ Keeps bs h h' := by
  have hlt : max len sizeofSize < 2 ^ 32 := by
    unfold sizeofSize
    omega
  obtain ⟨hsmall, hroom⟩ := alloc_eq_none.mp halloc
  have hne : ∀ c ∈ bs, c.used = false → c.size ≠ max len sizeofSize := fun c hc hfree =>
    (hsmall c hc hfree).ne
  obtain ⟨hrep, htop, hkeeps⟩ := hr.setBrkval
  refine ⟨_, ?_, hrep, htop, hkeeps⟩
  rw [Heap.malloc, request_eq, hr.walkExact_closest hne hrounds, foldl_narrow_eq hne,
    closest_eq_none.mpr hsmall]
  show some (h.extend (max len sizeofSize)) = _
  rw [hr.extend_eq hlt, if_neg (by omega)]

end Represents

end GeekOS.Memory.Heap
