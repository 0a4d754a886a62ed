import Mathlib.Data.List.Chain
import Mathlib.Data.List.MinMax
import Mathlib.Data.List.Pairwise
import Mathlib.Tactic.Common

/-!
# Arenas of blocks

An arena is a row of addresses that is cut into blocks. In front of the payload of a block stand
`hdr` bytes of the allocator, and a payload has `least` bytes at least, so that a free block can be
kept on a list through its own payload.

* `Tiles`: the blocks lie one behind the other, without a gap;
* `alloc`: a request is served from the smallest free block that is large enough, the first of
  them, whose upper part is cut off for it, or from the memory behind the blocks;
* `release`: a block is given back, and neighbours that are both free become one block;
* `Tidy.alloc`, `Tidy.release`: both keep the arena tiled, without two free neighbours;
* `live_alloc`, `live_release`: which blocks are in use afterwards;
* `Tidy.eq_of_live_nil`: when nothing is in use any more, one free block is left;
* `alloc_none_of_alloc`: what cannot be served is not made possible by serving something else.
-/

namespace Arena

/-- A block: the address of its header, and the size of its payload. -/
structure Block where
  addr : ℕ
  size : ℕ
  used : Bool
  deriving DecidableEq, Repr

variable (hdr least : ℕ)

/-- Where the payload begins. -/
def Block.payload (b : Block) : ℕ := b.addr + hdr

/-- Where the block ends. -/
def Block.stop (b : Block) : ℕ := b.addr + hdr + b.size

/-- From `lo` to `hi` the blocks lie one behind the other. -/
def Tiles : ℕ → List Block → ℕ → Prop
  | lo, [], hi => lo = hi
  | lo, b :: bs, hi => b.addr = lo ∧ Tiles (b.stop hdr) bs hi

/-- The blocks that are not in use. -/
def free (bs : List Block) : List Block := bs.filter fun b => !b.used

/-- The blocks that are in use. -/
def live (bs : List Block) : List Block := bs.filter Block.used

/-- One of two neighbours is in use. -/
def Parted (b c : Block) : Prop := b.used = true ∨ c.used = true

/-- The blocks of an arena from `lo` to `hi`, none of them too small, and no free block next to
another one. -/
structure Tidy (lo : ℕ) (bs : List Block) (hi : ℕ) : Prop where
  tiles : Tiles hdr lo bs hi
  least : ∀ b ∈ bs, least ≤ b.size
  parted : bs.IsChain Parted

/-! ## Requests -/

/-- The size of the smallest free block that is large enough. -/
def closest (len : ℕ) (bs : List Block) : Option ℕ :=
  (((free bs).map Block.size).filter (len ≤ ·)).min?

/-- The address that is handed out when `len` bytes are taken from a free block. -/
def handedOut (len : ℕ) (b : Block) : ℕ :=
  if b.size - len < hdr + least then b.payload hdr else b.addr + (b.size - len) + hdr

/-- What a free block becomes: a block in use, with a smaller free block in front of it if the rest
is large enough for one. -/
def carve (len : ℕ) (b : Block) : List Block :=
  if b.size - len < hdr + least then [{ b with used := true }]
  else [{ b with size := b.size - len - hdr }, ⟨b.addr + (b.size - len), len, true⟩]

/-- Take `len` bytes from the first free block of size `s`. -/
def take (s len : ℕ) : List Block → Option (ℕ × List Block)
  | [] => none
  | b :: bs =>
      if b.used = false ∧ b.size = s then some (handedOut hdr least len b, carve hdr least len b ++ bs)
      else (take s len bs).map fun r => (r.1, b :: r.2)

/-- Serve a request in an arena that ends at `hi` and may be extended up to `limit`. -/
def alloc (limit len : ℕ) (bs : List Block) (hi : ℕ) : Option (ℕ × List Block × ℕ) :=
  match closest len bs with
  | some s => (take hdr least s len bs).map fun r => (r.1, r.2, hi)
  | none =>
      if hi + hdr + len ≤ limit then
        some (hi + hdr, bs ++ [⟨hi, len, true⟩], hi + hdr + len)
      else none

/-! ## Giving back -/

/-- A block in front of others, as one block with the next one if both are free. -/
def join (b : Block) : List Block → List Block
  | [] => [b]
  | c :: bs =>
      if b.used = false ∧ c.used = false then ⟨b.addr, b.size + (c.size + hdr), false⟩ :: bs
      else b :: c :: bs

/-- Free neighbours become one block. -/
def coalesce (bs : List Block) : List Block := bs.foldr (join hdr) []

/-- The block whose payload begins at `p` is not in use any more. -/
def mark (p : ℕ) (bs : List Block) : List Block :=
  bs.map fun b => if b.payload hdr = p then { b with used := false } else b

/-- Give back the block whose payload begins at `p`. -/
def release (p : ℕ) (bs : List Block) : List Block := coalesce hdr (mark hdr p bs)

variable {hdr least} {lo hi mid limit len len' p s : ℕ} {bs bs' xs ys : List Block} {b c : Block}

@[simp]
theorem mem_free : b ∈ free bs ↔ b ∈ bs ∧ b.used = false := by
  simp [free]

@[simp]
theorem mem_live : b ∈ live bs ↔ b ∈ bs ∧ b.used = true := by
  simp [live]

@[simp]
theorem free_append : free (xs ++ ys) = free xs ++ free ys := List.filter_append ..

@[simp]
theorem live_append : live (xs ++ ys) = live xs ++ live ys := List.filter_append ..

/-! ## Tilings -/

theorem tiles_append : Tiles hdr lo (xs ++ ys) hi ↔ ∃ mid, Tiles hdr lo xs mid ∧ Tiles hdr mid ys hi := by
  induction xs generalizing lo with
  | nil => simp [Tiles]
  | cons b xs ih =>
    rw [List.cons_append, Tiles, ih]
    simp only [Tiles, and_assoc, exists_and_left]

theorem Tiles.le (h : Tiles hdr lo bs hi) : lo ≤ hi := by
  induction bs generalizing lo with
  | nil => exact Nat.le_of_eq h
  | cons b bs ih =>
    obtain ⟨haddr, h⟩ := h
    have hle := ih h
    unfold Block.stop at hle
    omega

/-- A block lies inside of the arena. -/
theorem Tiles.inside (h : Tiles hdr lo bs hi) (hb : b ∈ bs) : lo ≤ b.addr ∧ b.stop hdr ≤ hi := by
  obtain ⟨xs, ys, rfl⟩ := List.append_of_mem hb
  obtain ⟨mid, hxs, haddr, hys⟩ := tiles_append.mp h
  exact ⟨haddr ▸ hxs.le, hys.le⟩

/-- Of two blocks the one that comes first ends in front of the other one. -/
theorem Tiles.pairwise (h : Tiles hdr lo bs hi) :
    bs.Pairwise fun b c => b.stop hdr ≤ c.addr := by
  induction bs generalizing lo with
  | nil => exact List.Pairwise.nil
  | cons b bs ih => exact List.pairwise_cons.mpr ⟨fun c hc => (h.2.inside hc).1, ih h.2⟩

/-- Two different blocks share no byte. -/
theorem Tiles.disjoint (h : Tiles hdr lo bs hi) (hb : b ∈ bs) (hc : c ∈ bs) (hne : b ≠ c) :
    b.stop hdr ≤ c.addr ∨ c.stop hdr ≤ b.addr := by
  obtain ⟨xs, ys, rfl⟩ := List.append_of_mem hb
  obtain ⟨mid, hxs, haddr, hys⟩ := tiles_append.mp h
  rcases List.mem_append.mp hc with hc | hc
  · exact .inr (haddr ▸ (hxs.inside hc).2)
  · rcases List.mem_cons.mp hc with rfl | hc
    · exact absurd rfl hne
    · exact .inl (hys.inside hc).1

/-- There are no more blocks than headers have room. -/
theorem Tiles.length_le (h : Tiles hdr lo bs hi) : lo + hdr * bs.length ≤ hi := by
  induction bs generalizing lo with
  | nil => exact Nat.le_of_eq h
  | cons b bs ih =>
    have hle := ih h.2
    rw [h.1.symm, List.length_cons, Nat.mul_succ]
    unfold Block.stop at hle
    omega

/-! ## What a request finds -/

theorem closest_eq_some : closest len bs = some s ↔
    (∃ b ∈ bs, b.used = false ∧ b.size = s) ∧ len ≤ s ∧
      ∀ b ∈ bs, b.used = false → len ≤ b.size → s ≤ b.size := by
  rw [closest, List.min?_eq_some_iff]
  simp only [List.mem_filter, List.mem_map, mem_free, decide_eq_true_eq, and_imp,
    forall_exists_index, and_assoc]
  constructor
  · rintro ⟨⟨b, hb, hfree, hsize⟩, hlen, hmin⟩
    exact ⟨⟨b, hb, hfree, hsize⟩, hlen, fun c hc hcf hcl => hmin _ c hc hcf rfl hcl⟩
  · rintro ⟨⟨b, hb, hfree, hsize⟩, hlen, hmin⟩
    refine ⟨⟨b, hb, hfree, hsize⟩, hlen, ?_⟩
    rintro _ c hc hcf rfl hcl
    exact hmin c hc hcf hcl

theorem closest_eq_none : closest len bs = none ↔ ∀ b ∈ bs, b.used = false → b.size < len := by
  rw [closest, List.min?_eq_none_iff, List.filter_eq_nil_iff]
  simp only [List.mem_map, mem_free, decide_eq_true_eq, not_le, forall_exists_index, and_imp]
  constructor
  · intro h b hb hfree
    exact h _ b hb hfree rfl
  · rintro h _ b hb hfree rfl
    exact h b hb hfree

/-- What `take` takes is the first free block of the size. -/
theorem take_split (hb : b.used = false) (hs : b.size = s)
    (hxs : ∀ c ∈ xs, c.used = false → c.size ≠ s) :
    take hdr least s len (xs ++ b :: ys) =
      some (handedOut hdr least len b, xs ++ (carve hdr least len b ++ ys)) := by
  induction xs with
  | nil => rw [List.nil_append, take, if_pos ⟨hb, hs⟩, List.nil_append]
  | cons c xs ih =>
    have hc : ¬(c.used = false ∧ c.size = s) := fun h => hxs c List.mem_cons_self h.1 h.2
    rw [List.cons_append, take, if_neg hc, ih fun d hd => hxs d (List.mem_cons_of_mem _ hd)]
    rfl

/-- The first free block of a size that there is. -/
theorem exists_first (h : ∃ b ∈ bs, b.used = false ∧ b.size = s) :
    ∃ xs b ys, bs = xs ++ b :: ys ∧ b.used = false ∧ b.size = s ∧
      ∀ c ∈ xs, c.used = false → c.size ≠ s := by
  induction bs with
  | nil => simp at h
  | cons c bs ih =>
    by_cases hc : c.used = false ∧ c.size = s
    · exact ⟨[], c, bs, rfl, hc.1, hc.2, by simp⟩
    · obtain ⟨xs, b, ys, rfl, hb, hs, hxs⟩ := ih (by simpa [hc] using h)
      refine ⟨c :: xs, b, ys, rfl, hb, hs, ?_⟩
      intro d hd hfree hsize
      rcases List.mem_cons.mp hd with rfl | hd
      · exact hc ⟨hfree, hsize⟩
      · exact hxs d hd hfree hsize

variable (hdr least) in
/-- A request is served from a free block, from behind the blocks, or not at all. -/
theorem alloc_cases (limit len : ℕ) (bs : List Block) (hi : ℕ) :
    (∃ xs b ys, bs = xs ++ b :: ys ∧ b.used = false ∧ closest len bs = some b.size ∧
        len ≤ b.size ∧ (∀ c ∈ xs, c.used = false → c.size ≠ b.size) ∧
        alloc hdr least limit len bs hi =
          some (handedOut hdr least len b, xs ++ (carve hdr least len b ++ ys), hi)) ∨
      ((∀ b ∈ bs, b.used = false → b.size < len) ∧ hi + hdr + len ≤ limit ∧
        alloc hdr least limit len bs hi =
          some (hi + hdr, bs ++ [⟨hi, len, true⟩], hi + hdr + len)) ∨
      ((∀ b ∈ bs, b.used = false → b.size < len) ∧ limit < hi + hdr + len ∧
        alloc hdr least limit len bs hi = none) := by
  rcases hclosest : closest len bs with _ | s
  · have hsmall := closest_eq_none.mp hclosest
    by_cases hroom : hi + hdr + len ≤ limit
    · exact .inr (.inl ⟨hsmall, hroom, by rw [alloc, hclosest]; exact if_pos hroom⟩)
    · exact .inr (.inr ⟨hsmall, by omega, by rw [alloc, hclosest]; exact if_neg hroom⟩)
  · obtain ⟨hsome, hlen, -⟩ := closest_eq_some.mp hclosest
    obtain ⟨xs, b, ys, rfl, hb, rfl, hxs⟩ := exists_first hsome
    refine .inl ⟨xs, b, ys, rfl, hb, rfl, hlen, hxs, ?_⟩
    rw [alloc, hclosest]
    show (take hdr least b.size len (xs ++ b :: ys)).map _ = _
    rw [take_split hb rfl hxs, Option.map_some]

/-- A request is refused when no free block is large enough and the memory behind the blocks is not
either. -/
theorem alloc_eq_none : alloc hdr least limit len bs hi = none ↔
    (∀ b ∈ bs, b.used = false → b.size < len) ∧ limit < hi + hdr + len := by
  rcases alloc_cases hdr least limit len bs hi with
    ⟨xs, b, ys, rfl, hb, -, hlen, -, halloc⟩ | ⟨-, hroom, halloc⟩ | ⟨hsmall, hroom, halloc⟩
  · rw [halloc]
    refine iff_of_false (Option.some_ne_none _) ?_
    rintro ⟨hsmall, -⟩
    exact absurd (hsmall b (by simp) hb) (by omega)
  · rw [halloc]
    exact iff_of_false (Option.some_ne_none _) fun h => absurd h.2 (by omega)
  · rw [halloc]
    exact iff_of_true rfl ⟨hsmall, hroom⟩

/-! ## What a request does -/

theorem tiles_carve (hlen : len ≤ b.size) : Tiles hdr b.addr (carve hdr least len b) (b.stop hdr) := by
  unfold carve
  split
  · exact ⟨rfl, rfl⟩
  · refine ⟨rfl, ?_, ?_⟩
    · show b.addr + (b.size - len) = b.addr + hdr + (b.size - len - hdr)
      omega
    · show b.addr + (b.size - len) + hdr + len = b.addr + hdr + b.size
      omega

variable (hdr least) in
/-- The block in use that a free block becomes, behind what is left of it. -/
theorem exists_carve (hb : b.used = false) (hlen : len ≤ b.size) :
    ∃ rest d, carve hdr least len b = rest ++ [d] ∧ (∀ c ∈ rest, c.used = false) ∧
      rest.length ≤ 1 ∧ d.used = true ∧ len ≤ d.size ∧
      d.payload hdr = handedOut hdr least len b ∧
      (∀ c ∈ rest, least ≤ c.size ∧ c.size ≤ b.size) := by
  unfold carve handedOut
  split
  · exact ⟨[], { b with used := true }, rfl, by simp, by simp, rfl, hlen, rfl, by simp⟩
  · refine ⟨[{ b with size := b.size - len - hdr }], ⟨b.addr + (b.size - len), len, true⟩, rfl,
      by simpa using hb, by simp, rfl, Nat.le_refl len, rfl, ?_⟩
    intro c hc
    obtain rfl := List.mem_singleton.mp hc
    show least ≤ b.size - len - hdr ∧ b.size - len - hdr ≤ b.size
    omega

/-- A part of a row of blocks whose neighbours are in use. -/
theorem isChain_replace {zs : List Block} (h : (xs ++ b :: ys).IsChain Parted) (hb : b.used = false)
    (hd : c.used = true) (hzs : ∀ z ∈ zs, z.used = false) (hlen : zs.length ≤ 1) :
    (xs ++ (zs ++ [c] ++ ys)).IsChain Parted := by
  obtain ⟨hxs, hbys, hseam⟩ := List.isChain_append.mp h
  have hys : ys.IsChain Parted := hbys.tail
  have hcys : (c :: ys).IsChain Parted := by
    cases ys with
    | nil => exact .singleton c
    | cons y ys => exact .cons_cons (.inl hd) hys
  rw [List.append_assoc]
  refine List.isChain_append.mpr ⟨hxs, ?_, ?_⟩
  · rcases zs with _ | ⟨z, _ | ⟨z', zs⟩⟩
    · exact hcys
    · exact .cons_cons (.inr hd) hcys
    · simp at hlen
  · intro x hx y hy
    -- the block in front was next to a free one
    have hused := hseam x hx b rfl
    rw [Parted, hb] at hused
    exact .inl (hused.resolve_right (by simp))

variable {bs' : List Block} {hi' : ℕ}

/-- A request keeps the arena in order. -/
theorem Tidy.alloc (h : Tidy hdr least lo bs hi) (hlen : least ≤ len)
    (halloc : Arena.alloc hdr least limit len bs hi = some (p, bs', hi')) :
    Tidy hdr least lo bs' hi' := by
  rcases alloc_cases hdr least limit len bs hi with
    ⟨xs, b, ys, rfl, hb, -, hle, -, heq⟩ | ⟨-, -, heq⟩ | ⟨-, -, heq⟩
  · obtain ⟨rfl, rfl, rfl⟩ : _ ∧ _ ∧ _ := by simpa using heq.symm.trans halloc
    obtain ⟨mid, hxs, haddr, hys⟩ := tiles_append.mp h.tiles
    obtain ⟨rest, d, hcarve, hfree, hone, hd, hsize, -, hrest⟩ :=
      exists_carve hdr least hb hle
    refine ⟨?_, ?_, ?_⟩
    -- the parts of the block take its place
    · refine tiles_append.mpr ⟨mid, hxs, tiles_append.mpr ⟨b.stop hdr, ?_, hys⟩⟩
      exact haddr ▸ tiles_carve hle
    · intro c hc
      rw [hcarve] at hc
      simp only [List.mem_append, List.mem_singleton] at hc
      rcases hc with hc | (hc | rfl) | hc
      · exact h.least c (by simp [hc])
      · exact (hrest c hc).1
      · omega
      · exact h.least c (by simp [hc])
    · rw [hcarve]
      exact isChain_replace h.parted hb hd hfree hone
  · obtain ⟨rfl, rfl, rfl⟩ : _ ∧ _ ∧ _ := by simpa using heq.symm.trans halloc
    refine ⟨tiles_append.mpr ⟨hi, h.tiles, rfl, rfl⟩, ?_, ?_⟩
    · intro c hc
      rcases List.mem_append.mp hc with hc | hc
      · exact h.least c hc
      · obtain rfl := List.mem_singleton.mp hc
        exact hlen
    · refine List.isChain_append.mpr ⟨h.parted, .singleton _, ?_⟩
      intro x _ y hy
      obtain rfl : _ = y := by simpa using hy
      exact .inr rfl
  · rw [halloc] at heq
    exact absurd heq (Option.some_ne_none _)

/-- A block that is large enough is in use now, and the others still are. -/
theorem live_alloc (halloc : alloc hdr least limit len bs hi = some (p, bs', hi')) :
    ∃ l₁ d l₂, live bs = l₁ ++ l₂ ∧ live bs' = l₁ ++ d :: l₂ ∧ d.payload hdr = p ∧ len ≤ d.size := by
  rcases alloc_cases hdr least limit len bs hi with
    ⟨xs, b, ys, rfl, hb, -, hle, -, heq⟩ | ⟨-, -, heq⟩ | ⟨-, -, heq⟩
  · obtain ⟨rfl, rfl, rfl⟩ : _ ∧ _ ∧ _ := by simpa using heq.symm.trans halloc
    obtain ⟨rest, d, hcarve, hfree, -, hd, hsize, hpay, -⟩ :=
      exists_carve hdr least hb hle
    have hrest : live rest = [] := by
      apply List.filter_eq_nil_iff.mpr
      intro c hc
      rw [hfree c hc]
      exact Bool.false_ne_true
    refine ⟨live xs, d, live ys, ?_, ?_, hpay, hsize⟩
    · rw [live_append]
      simp [live, hb]
    · rw [hcarve, live_append, live_append, live_append, hrest]
      simp [live, hd]
  · obtain ⟨rfl, rfl, rfl⟩ : _ ∧ _ ∧ _ := by simpa using heq.symm.trans halloc
    exact ⟨live bs, ⟨hi, len, true⟩, [], by simp, by simp [live], rfl, Nat.le_refl len⟩
  · rw [halloc] at heq
    exact absurd heq (Option.some_ne_none _)

/-- A request that was refused is refused after another one, too. -/
theorem alloc_none_of_alloc (hnone : alloc hdr least limit len bs hi = none)
    (halloc : alloc hdr least limit len' bs hi = some (p, bs', hi')) :
    alloc hdr least limit len bs' hi' = none := by
  obtain ⟨hsmall, hroom⟩ := alloc_eq_none.mp hnone
  rcases alloc_cases hdr least limit len' bs hi with
    ⟨xs, b, ys, rfl, hb, -, hle, -, heq⟩ | ⟨-, -, heq⟩ | ⟨-, -, heq⟩
  · obtain ⟨rfl, rfl, rfl⟩ : _ ∧ _ ∧ _ := by simpa using heq.symm.trans halloc
    obtain ⟨rest, d, hcarve, -, -, hd, -, -, hrest⟩ :=
      exists_carve hdr least hb hle
    refine alloc_eq_none.mpr ⟨?_, hroom⟩
    intro c hc hfree
    rw [hcarve] at hc
    simp only [List.mem_append, List.mem_singleton] at hc
    -- what is left of the block that was taken is smaller than that block, which was too small
    rcases hc with hc | (hc | rfl) | hc
    · exact hsmall c (by simp [hc]) hfree
    · exact Nat.lt_of_le_of_lt (hrest c hc).2 (hsmall b (by simp) hb)
    · rw [hd] at hfree
      exact absurd hfree (by simp)
    · exact hsmall c (by simp [hc]) hfree
  · obtain ⟨rfl, rfl, rfl⟩ : _ ∧ _ ∧ _ := by simpa using heq.symm.trans halloc
    refine alloc_eq_none.mpr ⟨?_, by omega⟩
    intro c hc hfree
    rcases List.mem_append.mp hc with hc | hc
    · exact hsmall c hc hfree
    · obtain rfl := List.mem_singleton.mp hc
      exact absurd hfree (by simp)
  · rw [halloc] at heq
    exact absurd heq (Option.some_ne_none _)

/-! ## What giving back does -/

variable (hdr) in
/-- A block in front of others: one with a free block behind it becomes a larger one. -/
theorem join_cases (b : Block) (bs : List Block) :
    (∃ c cs, bs = c :: cs ∧ b.used = false ∧ c.used = false ∧
        join hdr b bs = ⟨b.addr, b.size + (c.size + hdr), false⟩ :: cs) ∨
      (∀ c ∈ bs.head?, Parted b c) ∧ join hdr b bs = b :: bs := by
  cases bs with
  | nil => exact .inr ⟨by simp, rfl⟩
  | cons c cs =>
    by_cases h : b.used = false ∧ c.used = false
    · exact .inl ⟨c, cs, rfl, h.1, h.2, if_pos h⟩
    · refine .inr ⟨?_, if_neg h⟩
      intro d hd
      obtain rfl : c = d := by simpa using hd
      rw [not_and_or, Bool.not_eq_false, Bool.not_eq_false] at h
      exact h

theorem tiles_join (h : Tiles hdr lo (b :: bs) hi) : Tiles hdr lo (join hdr b bs) hi := by
  rcases join_cases hdr b bs with ⟨c, cs, rfl, -, -, heq⟩ | ⟨-, heq⟩
  · obtain ⟨rfl, hc, hcs⟩ := h
    rw [heq]
    refine ⟨rfl, ?_⟩
    have hstop : c.stop hdr = b.addr + hdr + (b.size + (c.size + hdr)) := by
      unfold Block.stop at hc ⊢
      omega
    rwa [hstop] at hcs
  · rwa [heq]

theorem parted_join (h : bs.IsChain Parted) : (join hdr b bs).IsChain Parted := by
  rcases join_cases hdr b bs with ⟨c, cs, rfl, -, hc, heq⟩ | ⟨hseam, heq⟩
  · rw [heq]
    cases cs with
    | nil => exact .singleton _
    | cons d cs =>
      obtain ⟨hcd, hcs⟩ := List.isChain_cons_cons.mp h
      rw [Parted, hc] at hcd
      exact .cons_cons (.inr (hcd.resolve_left (by simp))) hcs
  · rw [heq]
    cases bs with
    | nil => exact .singleton _
    | cons c cs => exact .cons_cons (hseam c rfl) h

theorem live_join : live (join hdr b bs) = live (b :: bs) := by
  rcases join_cases hdr b bs with ⟨c, cs, rfl, hb, hc, heq⟩ | ⟨-, heq⟩
  · rw [heq]
    simp [live, hb, hc]
  · rw [heq]

theorem least_join (h : ∀ c ∈ b :: bs, least ≤ c.size) : ∀ c ∈ join hdr b bs, least ≤ c.size := by
  rcases join_cases hdr b bs with ⟨d, cs, rfl, -, -, heq⟩ | ⟨-, heq⟩
  · rw [heq]
    intro c hc
    rcases List.mem_cons.mp hc with rfl | hc
    · have hle := h b List.mem_cons_self
      show least ≤ b.size + (d.size + hdr)
      omega
    · exact h c (by simp [hc])
  · rw [heq]
    exact h

theorem tiles_foldr_join {zs : List Block} (h : Tiles hdr lo (xs ++ zs) hi) :
    Tiles hdr lo (xs.foldr (join hdr) zs) hi := by
  induction xs generalizing lo with
  | nil => exact h
  | cons b xs ih =>
    rw [List.foldr_cons]
    exact tiles_join ⟨h.1, ih h.2⟩

theorem tiles_coalesce (h : Tiles hdr lo bs hi) : Tiles hdr lo (coalesce hdr bs) hi :=
  tiles_foldr_join (by rwa [List.append_nil])

theorem parted_coalesce (bs : List Block) : (coalesce hdr bs).IsChain Parted := by
  induction bs with
  | nil => exact .nil
  | cons b bs ih => exact parted_join ih

theorem live_coalesce (bs : List Block) : live (coalesce hdr bs) = live bs := by
  induction bs with
  | nil => rfl
  | cons b bs ih =>
    rw [coalesce, List.foldr_cons, live_join, ← coalesce]
    show List.filter _ _ = List.filter _ _
    rw [List.filter_cons, List.filter_cons, ← live, ih, live]

theorem least_coalesce (h : ∀ b ∈ bs, least ≤ b.size) : ∀ b ∈ coalesce hdr bs, least ≤ b.size := by
  induction bs with
  | nil => exact h
  | cons b bs ih =>
    apply least_join
    intro c hc
    rcases List.mem_cons.mp hc with rfl | hc
    · exact h c List.mem_cons_self
    · exact ih (fun d hd => h d (List.mem_cons_of_mem _ hd)) c hc

theorem tiles_mark (h : Tiles hdr lo bs hi) : Tiles hdr lo (mark hdr p bs) hi := by
  induction bs generalizing lo with
  | nil => exact h
  | cons b bs ih =>
    rw [mark, List.map_cons, ← mark]
    refine ⟨?_, ?_⟩
    · rw [← h.1]
      split <;> rfl
    · have hrest := ih h.2
      split <;> exact hrest

theorem live_mark (p : ℕ) (bs : List Block) :
    live (mark hdr p bs) = (live bs).filter fun b => b.payload hdr ≠ p := by
  induction bs with
  | nil => rfl
  | cons b bs ih =>
    rw [mark, List.map_cons, ← mark]
    by_cases hp : b.payload hdr = p
    · rw [if_pos hp]
      show List.filter _ _ = _
      rw [List.filter_cons_of_neg (by simp), ← live, ih]
      by_cases hb : b.used = true
      · simp [live, List.filter_cons_of_pos, hb, hp]
      · simp [live, hb]
    · rw [if_neg hp]
      show List.filter _ _ = _
      by_cases hb : b.used = true
      · rw [List.filter_cons_of_pos hb, ← live, ih]
        simp [live, List.filter_cons_of_pos, hb, hp]
      · rw [List.filter_cons_of_neg hb, ← live, ih]
        simp [live, hb]

/-- Giving a block back keeps the arena in order. -/
theorem Tidy.release (h : Tidy hdr least lo bs hi) (p : ℕ) :
    Tidy hdr least lo (Arena.release hdr p bs) hi where
  tiles := tiles_coalesce (tiles_mark h.tiles)
  least := by
    apply least_coalesce
    intro b hb
    obtain ⟨c, hc, rfl⟩ := List.mem_map.mp hb
    have hle := h.least c hc
    split <;> exact hle
  parted := parted_coalesce _

/-- The block that is given back is not in use any more, and the others still are. -/
theorem live_release (p : ℕ) (bs : List Block) :
    live (release hdr p bs) = (live bs).filter fun b => b.payload hdr ≠ p := by
  rw [release, live_coalesce, live_mark]

variable (hdr) in
/-- A free block does not become smaller by being joined. -/
theorem exists_free_join (h : ∃ c ∈ b :: bs, c.used = false ∧ s ≤ c.size) :
    ∃ c ∈ join hdr b bs, c.used = false ∧ s ≤ c.size := by
  obtain ⟨c, hc, hfree, hle⟩ := h
  rcases join_cases hdr b bs with ⟨d, cs, rfl, -, -, heq⟩ | ⟨-, heq⟩
  · rw [heq]
    rcases List.mem_cons.mp hc with rfl | hc
    · refine ⟨_, List.mem_cons_self, rfl, ?_⟩
      show s ≤ c.size + (d.size + hdr)
      omega
    · rcases List.mem_cons.mp hc with rfl | hc
      · refine ⟨_, List.mem_cons_self, rfl, ?_⟩
        show s ≤ b.size + (c.size + hdr)
        omega
      · exact ⟨c, List.mem_cons_of_mem _ hc, hfree, hle⟩
  · rw [heq]
    exact ⟨c, hc, hfree, hle⟩

variable (hdr) in
theorem exists_free_coalesce (h : ∃ c ∈ bs, c.used = false ∧ s ≤ c.size) :
    ∃ c ∈ coalesce hdr bs, c.used = false ∧ s ≤ c.size := by
  induction bs with
  | nil => exact h
  | cons b bs ih =>
    apply exists_free_join
    obtain ⟨c, hc, hfree, hle⟩ := h
    rcases List.mem_cons.mp hc with rfl | hc
    · exact ⟨c, List.mem_cons_self, hfree, hle⟩
    · obtain ⟨d, hd, hdfree, hdle⟩ := ih ⟨c, hc, hfree, hle⟩
      exact ⟨d, List.mem_cons_of_mem _ hd, hdfree, hdle⟩

variable (hdr) in
/-- There is a free block as large as the one that is given back. -/
theorem exists_free_release (hb : b ∈ bs) :
    ∃ c ∈ release hdr (b.payload hdr) bs, c.used = false ∧ b.size ≤ c.size := by
  apply exists_free_coalesce
  refine ⟨{ b with used := false }, List.mem_map.mpr ⟨b, hb, ?_⟩, rfl, Nat.le_refl b.size⟩
  rw [if_pos rfl]

/-- When nothing is in use any more, the whole arena is one free block. -/
theorem Tidy.eq_of_live_nil (h : Tidy hdr least lo bs hi) (hlive : live bs = []) (hlt : lo < hi) :
    bs = [⟨lo, hi - lo - hdr, false⟩] := by
  have hfree : ∀ b ∈ bs, b.used = false := by
    intro b hb
    by_contra hused
    have hmem : b ∈ live bs := mem_live.mpr ⟨hb, by simpa using hused⟩
    rw [hlive] at hmem
    cases hmem
  rcases bs with _ | ⟨b, _ | ⟨c, bs⟩⟩
  · exact absurd h.tiles (Nat.ne_of_lt hlt)
  · obtain ⟨haddr, hstop⟩ := h.tiles
    have hsize : b.size = hi - lo - hdr := by
      have hend : b.stop hdr = hi := hstop
      unfold Block.stop at hend
      omega
    have hb := hfree b List.mem_cons_self
    cases b
    simp only at haddr hsize hb
    rw [haddr, hsize, hb]
  · have hparted := (List.isChain_cons_cons.mp h.parted).1
    rw [Parted, hfree b (by simp), hfree c (by simp)] at hparted
    simp at hparted

/-! ## Where a block is given back -/

/-- A row of blocks that are in order already. -/
theorem foldr_join {zs : List Block} (hxs : xs.IsChain Parted)
    (hseam : ∀ x ∈ xs.getLast?, ∀ z ∈ zs.head?, Parted x z) : xs.foldr (join hdr) zs = xs ++ zs := by
  induction xs with
  | nil => rfl
  | cons b xs ih =>
    have htail : ∀ x ∈ xs.getLast?, ∀ z ∈ zs.head?, Parted x z := by
      intro x hx
      apply hseam x
      cases xs with
      | nil => cases hx
      | cons c xs => rwa [List.getLast?_cons_cons]
    rw [List.foldr_cons, ih hxs.tail htail]
    have hhead : ∀ c ∈ (xs ++ zs).head?, Parted b c := by
      intro c hc
      cases xs with
      | nil => exact hseam b rfl c hc
      | cons d xs =>
        obtain rfl : d = c := by simpa using hc
        exact (List.isChain_cons_cons.mp hxs).1
    rcases join_cases hdr b (xs ++ zs) with ⟨c, cs, heq, hb, hc, -⟩ | ⟨-, heq⟩
    · have hparted := hhead c (by rw [heq]; rfl)
      rw [Parted, hb, hc] at hparted
      simp at hparted
    · rw [heq]
      rfl

theorem coalesce_of_parted (h : bs.IsChain Parted) : coalesce hdr bs = bs := by
  rw [coalesce, foldr_join h (by simp), List.append_nil]

/-- A free block at the end of a row takes part in what follows. -/
theorem foldr_join_concat {zs : List Block} (h : (xs ++ [c]).IsChain Parted) (hc : c.used = false) :
    (xs ++ [c]).foldr (join hdr) zs = xs ++ join hdr c zs := by
  obtain ⟨hxs, -, hseam⟩ := List.isChain_append.mp h
  rw [List.foldr_append]
  apply foldr_join hxs
  intro x hx z _
  have hparted := hseam x hx c rfl
  rw [Parted, hc] at hparted
  exact .inl (hparted.resolve_right (by simp))

theorem mark_of_ne (h : ∀ c ∈ bs, c.payload hdr ≠ p) : mark hdr p bs = bs := by
  rw [mark]
  conv_rhs => rw [← List.map_id bs]
  apply List.map_congr_left
  intro c hc
  rw [if_neg (h c hc)]
  rfl

/-- Where no block has the address, nothing is given back. -/
theorem release_of_ne (hparted : bs.IsChain Parted) (h : ∀ c ∈ bs, c.payload hdr ≠ p) :
    release hdr p bs = bs := by
  rw [release, mark_of_ne h, coalesce_of_parted hparted]

/-- Only the blocks next to the one that is given back change. -/
theorem release_split (h : Tidy hdr least lo (xs ++ b :: ys) hi) (hhdr : 0 < hdr) :
    release hdr (b.payload hdr) (xs ++ b :: ys) =
      xs.foldr (join hdr) (join hdr { b with used := false } ys) := by
  obtain ⟨mid, hxs, haddr, hys⟩ := tiles_append.mp h.tiles
  have hfront : mark hdr (b.payload hdr) xs = xs := by
    apply mark_of_ne
    intro c hc
    have hstop := (hxs.inside hc).2
    unfold Block.stop at hstop
    unfold Block.payload
    omega
  have hback : mark hdr (b.payload hdr) ys = ys := by
    apply mark_of_ne
    intro c hc
    have hstart := (hys.inside hc).1
    unfold Block.stop at hstart
    unfold Block.payload
    omega
  have hparted : ys.IsChain Parted := (List.isChain_append.mp h.parted).2.1.tail
  rw [release, mark, List.map_append, List.map_cons, if_pos rfl, ← mark, ← mark, hfront, hback,
    coalesce, List.foldr_append, List.foldr_cons, ← coalesce, coalesce_of_parted hparted]

end Arena
