import GeekOS.Library.AddressLoop
import GeekOS.Memory.Frame
import GeekOS.Memory.Layout

/-!
# The regions of physical memory

`mem_init` of `mem.c` with `mem_create_framelist` and `mem_scan_regions` of `x86_mem.c`: the frame
table behind the kernel, and what each region of memory is used for. A frame is its number in the
frame table.

* `memScanRegions`, `memScanRegion`: the regions, and the callback that takes the heap from the
  first large one and appends the frames of the others to the free list;
* `memInit_ok`: the heap and the free list after `mem_init`;
* `reserved`, `frameTable`, `MemState.KeepsOut`: the memory that neither of them may overlap;
* `memInit_frameTable_free`: the end of the frame table is computed in frames and used in bytes, so
  that frames of the table itself come to the free list, whatever the size of the memory;
* `memInit_keepsOut`: everything else is kept out.
-/

namespace GeekOS.Memory

open Result AddressLoop

/-- `HEAP_SIZE`. -/
def heapSize : ℕ := 512 * 1024

/-- The difference of two `ulong_t`. -/
def ulongSub (a b : ℕ) : ℕ := (a + 2 ^ 32 - b) % 2 ^ 32

/-- `struct scan_region_data`. -/
structure ScanRegionData where
  heapCreated : Bool := false
  heapSize : ℕ := 0
  availPages : ℕ := 0
  deriving DecidableEq, Repr

/-- `s_framelist` and its address, `s_numframes`, `s_freelist`, and the bounds of the heap. -/
structure MemState where
  pool : FramePool ℕ
  framelist : ℕ
  numframes : ℕ
  heapstart : ℕ := 0
  heapend : ℕ := 0

/-- One round of the loop of `mem_set_region_state`. -/
def setFrameState (state : FrameState) (pool : FramePool ℕ) (addr : ℕ) : FramePool ℕ :=
  let frame := addr / pageSize
  let pool := pool.setFrame frame { pool.frame frame with state }
  if state = .avail then { pool with freelist := pool.freelist ++ [frame] } else pool

/-- `mem_set_region_state`. -/
def memSetRegionState (pool : FramePool ℕ) (start stop : ℕ) (state : FrameState) :
    Except Fault (FramePool ℕ) := do
  require (start < stop) .emptyRegion
  forAddress start stop pageSize (fun pool addr => pure (setFrameState state pool addr)) pool

/-- `mem_heap_init`. -/
def MemState.memHeapInit (m : MemState) (start stop : ℕ) : MemState :=
  { m with heapstart := start, heapend := stop }

/-- The rest of `mem_scan_region`, behind the heap. -/
def memScanFrames (start stop : ℕ) (state : FrameState) (m : MemState) (data : ScanRegionData) :
    Except Fault (ℕ × MemState × ScanRegionData) := do
  let pool ← memSetRegionState m.pool start stop state
  let data := if state = .avail then
    { data with availPages := data.availPages + ulongSub stop start / pageSize } else data
  pure (stop, { m with pool }, data)

/-- `mem_scan_region`. -/
def memScanRegion (start stop : ℕ) (state : FrameState) (m : MemState) (data : ScanRegionData) :
    Except Fault (ℕ × MemState × ScanRegionData) := do
  if data.heapCreated = false ∧ state = .avail ∧ heapSize ≤ ulongSub stop start then
    let pool ← memSetRegionState m.pool start (ulong (start + heapSize)) .heap
    let m := { m with pool }.memHeapInit start (ulong (start + heapSize))
    memScanFrames (ulong (start + heapSize)) stop state m
      { data with heapCreated := true, heapSize := heapSize }
  else
    memScanFrames start stop state m data

/-- `mem_create_framelist`: the frame table, filled with zeroes. -/
def memCreateFramelist (endAddr memUpper : ℕ) : MemState :=
  let layout := x86memInitLayout endAddr memUpper
  { pool := { frame := fun _ => {}, freelist := [] }
    framelist := layout.kernelEnd
    numframes := layout.numframes }

/-- `mem_scan_regions`, with `mem_scan_region` as its callback. -/
def memScanRegions (endAddr memUpper : ℕ) (m : MemState) (data : ScanRegionData) :
    Except Fault (MemState × ScanRegionData) := do
  let layout := x86memInitLayout endAddr memUpper
  let (addr, m, data) ← memScanRegion 0 pageSize .unused m data
  let (addr, m, data) ← memScanRegion addr isaHoleStart .avail m data
  let (addr, m, data) ← memScanRegion addr isaHoleEnd .hw m data
  let (addr, m, data) ← memScanRegion addr (isaHoleEnd + pageSize) .kstack m data
  let (addr, m, data) ←
    memScanRegion addr (ulong (layout.kernelEnd + layout.framelistNumframes)) .kern m data
  let (_, m, data) ← memScanRegion addr (ulong (layout.numframes * pageSize)) .avail m data
  pure (m, data)

/-- `mem_init`. -/
def memInit (endAddr memUpper : ℕ) : Except Fault MemState := do
  let m := memCreateFramelist endAddr memUpper
  let (m, data) ← memScanRegions endAddr memUpper m {}
  require data.heapCreated .noHeap
  pure m

/-! ## What the functions do -/

/-- The numbers of the frames that begin in a region, one for each round of the loop. -/
def regionFrames (start stop : ℕ) : List ℕ := (addresses start stop pageSize).map (· / pageSize)

variable {start stop : ℕ} {state : FrameState}

theorem foldl_setFrameState_freelist (l : List ℕ) (pool : FramePool ℕ) :
    (l.foldl (setFrameState state) pool).freelist =
      pool.freelist ++ if state = .avail then l.map (· / pageSize) else [] := by
  induction l generalizing pool with
  | nil => simp
  | cons a l ih =>
    rw [List.foldl_cons, ih, setFrameState]
    by_cases hstate : state = .avail
    · simp [hstate]
    · simp [hstate]

/-- A region that is not empty gets its state, and its frames come to the free list if they are
available. -/
theorem memSetRegionState_ok (state : FrameState) (h : start < stop) (pool : FramePool ℕ) :
    ∃ pool', memSetRegionState pool start stop state = .ok pool' ∧
      pool'.freelist = pool.freelist ++ if state = .avail then regionFrames start stop else [] := by
  refine ⟨_, ?_, foldl_setFrameState_freelist (addresses start stop pageSize) pool⟩
  rw [memSetRegionState, require, if_pos h, ok_bind]
  exact forAddress_eq_foldl (fun _ _ _ => rfl) pool

/-- A region that is not available. -/
theorem memScanRegion_reserved (m : MemState) (data : ScanRegionData) (h : start < stop)
    (hstate : state ≠ .avail) :
    ∃ pool', memScanRegion start stop state m data = .ok (stop, { m with pool := pool' }, data) ∧
      pool'.freelist = m.pool.freelist := by
  obtain ⟨pool', hok, hfree⟩ := memSetRegionState_ok state h m.pool
  rw [if_neg hstate, List.append_nil] at hfree
  refine ⟨pool', ?_, hfree⟩
  rw [memScanRegion, if_neg (by simp [hstate]), memScanFrames, hok, ok_bind]
  simp [hstate]

/-- The frames of an available region, behind the heap. -/
theorem memScanFrames_avail (m : MemState) (data : ScanRegionData) (h : start < stop) :
    ∃ pool' n, memScanFrames start stop .avail m data =
        .ok (stop, { m with pool := pool' }, { data with availPages := n }) ∧
      pool'.freelist = m.pool.freelist ++ regionFrames start stop := by
  obtain ⟨pool', hok, hfree⟩ := memSetRegionState_ok .avail h m.pool
  rw [if_pos rfl] at hfree
  refine ⟨pool', data.availPages + ulongSub stop start / pageSize, ?_, hfree⟩
  rw [memScanFrames, hok, ok_bind]
  rfl

/-- The heap has been taken from another region. -/
theorem memScanRegion_avail (m : MemState) (data : ScanRegionData) (h : start < stop)
    (hheap : data.heapCreated = true) :
    ∃ pool' n, memScanRegion start stop .avail m data =
        .ok (stop, { m with pool := pool' }, { data with availPages := n }) ∧
      pool'.freelist = m.pool.freelist ++ regionFrames start stop := by
  rw [memScanRegion, if_neg (by simp [hheap])]
  exact memScanFrames_avail m data h

/-- The heap is taken from the beginning of the region. -/
theorem memScanRegion_heap (m : MemState) (data : ScanRegionData) (h : start + heapSize < stop)
    (hstop : stop < 2 ^ 32) (hheap : data.heapCreated = false) :
    ∃ pool' n, memScanRegion start stop .avail m data =
        .ok (stop, { m with pool := pool', heapstart := start, heapend := start + heapSize },
          { heapCreated := true, heapSize := heapSize, availPages := n }) ∧
      pool'.freelist = m.pool.freelist ++ regionFrames (start + heapSize) stop := by
  have hsize : heapSize ≤ ulongSub stop start := by
    unfold ulongSub heapSize at *
    omega
  have hstart : start < start + heapSize := by
    unfold heapSize
    omega
  obtain ⟨pool₁, hok₁, hfree₁⟩ := memSetRegionState_ok .heap hstart m.pool
  rw [if_neg (by decide), List.append_nil] at hfree₁
  obtain ⟨pool₂, n, hok₂, hfree₂⟩ := memScanFrames_avail
    { m with pool := pool₁, heapstart := start, heapend := start + heapSize }
    { data with heapCreated := true, heapSize := heapSize } h
  refine ⟨pool₂, n, ?_, by rw [hfree₂, ← hfree₁]⟩
  rw [memScanRegion, if_pos ⟨hheap, rfl, hsize⟩, ulong_of_lt (by omega), hok₁, ok_bind]
  exact hok₂

/-! ## The boot -/

/-- The kernel ends above its initial stack, some memory is left above the kernel and the frame
table, and nothing of it needs more than 32 bits. -/
structure Fits (endAddr memUpper : ℕ) : Prop where
  memsize : 1024 + memUpper < 2 ^ 32
  bytes : (x86memInitLayout endAddr memUpper).numframes * pageSize < 2 ^ 32
  kernelEnd : kernStack + pageSize ≤ (x86memInitLayout endAddr memUpper).kernelEnd
  room : (x86memInitLayout endAddr memUpper).kernelEnd +
      (x86memInitLayout endAddr memUpper).framelistNumframes * pageSize <
    (x86memInitLayout endAddr memUpper).numframes * pageSize

/-- A frame table that is not empty needs a frame at least. -/
theorem roundToPage_frames_pos {n : ℕ} (hpos : 0 < n) (hlt : n * pageSize < 2 ^ 32) :
    0 < memRoundToPage (ulong (n * sizeofFrame)) / pageSize := by
  have hround : ulong (n * sizeofFrame) = n * 28 :=
    ulong_of_lt (by unfold sizeofFrame pageSize at *; omega)
  rw [hround]
  unfold memRoundToPage pageMask ulong pageSize at *
  split <;> omega

theorem Fits.framelistNumframes_pos {endAddr memUpper : ℕ} (h : Fits endAddr memUpper) :
    0 < (x86memInitLayout endAddr memUpper).framelistNumframes := by
  have hpos : 0 < (x86memInitLayout endAddr memUpper).numframes := by
    have hroom := h.room
    by_contra hzero
    rw [Nat.eq_zero_of_not_pos hzero] at hroom
    omega
  exact roundToPage_frames_pos hpos h.bytes

/-- The heap and the free list after `mem_init`: the last region begins at the address
`kernel_end + framelist_numframes`. -/
theorem memInit_ok {endAddr memUpper : ℕ} (h : Fits endAddr memUpper) :
    ∃ m, memInit endAddr memUpper = .ok m ∧
      m.framelist = (x86memInitLayout endAddr memUpper).kernelEnd ∧
      m.heapstart = pageSize ∧ m.heapend = pageSize + heapSize ∧
      m.pool.freelist = regionFrames (pageSize + heapSize) isaHoleStart ++
        regionFrames ((x86memInitLayout endAddr memUpper).kernelEnd +
          (x86memInitLayout endAddr memUpper).framelistNumframes)
            ((x86memInitLayout endAddr memUpper).numframes * pageSize) := by
  have hpage : pageSize = 4096 := rfl
  have hheap : heapSize = 524288 := rfl
  have hlow : isaHoleStart = 655360 ∧ isaHoleEnd = 1048576 ∧ kernStack = 1048576 :=
    ⟨rfl, rfl, rfl⟩
  have hpos := h.framelistNumframes_pos
  have hbytes := h.bytes
  have hend := h.kernelEnd
  have hroom := h.room
  unfold memInit memScanRegions memCreateFramelist
  -- from here on only the order of the bounds matters
  generalize x86memInitLayout endAddr memUpper = layout at *
  have hlast : layout.kernelEnd + layout.framelistNumframes < layout.numframes * pageSize := by
    rw [hpage] at hroom ⊢
    omega
  -- the end of the kernel's region: frames are added to bytes
  have hstop : ulong (layout.kernelEnd + layout.framelistNumframes) =
      layout.kernelEnd + layout.framelistNumframes := ulong_of_lt (by omega)
  let m₀ : MemState := {
    pool := { frame := fun _ => {}, freelist := [] }
    framelist := layout.kernelEnd
    numframes := layout.numframes }
  -- the six regions, each from where the one before it ends
  obtain ⟨p₁, h₁, f₁⟩ := memScanRegion_reserved m₀ {} (show 0 < pageSize by omega)
    (show FrameState.unused ≠ .avail by decide)
  obtain ⟨p₂, n, h₂, f₂⟩ := memScanRegion_heap { m₀ with pool := p₁ } {}
    (show pageSize + heapSize < isaHoleStart by omega) (by omega) rfl
  obtain ⟨p₃, h₃, f₃⟩ := memScanRegion_reserved
    { m₀ with pool := p₂, heapstart := pageSize, heapend := pageSize + heapSize }
    { heapCreated := true, heapSize := heapSize, availPages := n }
    (show isaHoleStart < isaHoleEnd by omega) (show FrameState.hw ≠ .avail by decide)
  obtain ⟨p₄, h₄, f₄⟩ := memScanRegion_reserved
    { m₀ with pool := p₃, heapstart := pageSize, heapend := pageSize + heapSize }
    { heapCreated := true, heapSize := heapSize, availPages := n }
    (show isaHoleEnd < isaHoleEnd + pageSize by omega) (show FrameState.kstack ≠ .avail by decide)
  obtain ⟨p₅, h₅, f₅⟩ := memScanRegion_reserved
    { m₀ with pool := p₄, heapstart := pageSize, heapend := pageSize + heapSize }
    { heapCreated := true, heapSize := heapSize, availPages := n }
    (show isaHoleEnd + pageSize < layout.kernelEnd + layout.framelistNumframes by omega)
    (show FrameState.kern ≠ .avail by decide)
  obtain ⟨p₆, n', h₆, f₆⟩ := memScanRegion_avail
    { m₀ with pool := p₅, heapstart := pageSize, heapend := pageSize + heapSize }
    { heapCreated := true, heapSize := heapSize, availPages := n } hlast rfl
  refine ⟨{ m₀ with pool := p₆, heapstart := pageSize, heapend := pageSize + heapSize }, ?_, rfl,
    rfl, rfl, ?_⟩
  · simp only [hstop, ulong_of_lt hbytes]
    rw [h₁, ok_bind]
    dsimp only
    rw [h₂, ok_bind]
    dsimp only
    rw [h₃, ok_bind]
    dsimp only
    rw [h₄, ok_bind]
    dsimp only
    rw [h₅, ok_bind]
    dsimp only
    rw [h₆]
    rfl
  · rw [f₆, f₅, f₄, f₃, f₂, f₁]
    rfl

/-! ## Reserved memory -/

/-- The addresses from `lo` up to `hi`. -/
structure Region where
  lo : ℕ
  hi : ℕ
  deriving DecidableEq, Repr

/-- Two regions have an address in common, if neither of them is empty. -/
def Region.Overlaps (r s : Region) : Prop := r.lo < s.hi ∧ s.lo < r.hi

/-- The page of a frame. -/
def frameRegion (frame : ℕ) : Region := ⟨frame * pageSize, frame * pageSize + pageSize⟩

/-- The frame table, as `mem_create_framelist` fills it with zeroes. -/
def frameTable (layout : X86memLayout) : Region :=
  ⟨layout.kernelEnd, layout.kernelEnd + layout.framelistNumframes * pageSize⟩

/-- Page 0, the ISA hole, the initial kernel stack and the kernel image. -/
def reserved (layout : X86memLayout) : List Region :=
  [⟨0, pageSize⟩, ⟨isaHoleStart, isaHoleEnd⟩, ⟨kernStack, kernStack + pageSize⟩,
    ⟨kernStack + pageSize, layout.kernelEnd⟩]

/-- Neither a frame of the free list nor the heap overlaps the regions. -/
structure MemState.KeepsOut (m : MemState) (regions : List Region) : Prop where
  free : ∀ frame ∈ m.pool.freelist, ∀ r ∈ regions, ¬(frameRegion frame).Overlaps r
  heap : ∀ r ∈ regions, ¬Region.Overlaps ⟨m.heapstart, m.heapend⟩ r

theorem mem_regionFrames {start stop frame : ℕ} :
    frame ∈ regionFrames start stop ↔
      ∃ k, start + k * pageSize < stop ∧ frame = (start + k * pageSize) / pageSize := by
  simp only [regionFrames, List.mem_map, mem_addresses (show 0 < pageSize by decide)]
  constructor
  · rintro ⟨a, ⟨hlt, k, rfl⟩, rfl⟩
    exact ⟨k, hlt, rfl⟩
  · rintro ⟨k, hlt, rfl⟩
    exact ⟨_, ⟨hlt, k, rfl⟩, rfl⟩

/-- The first frame of the last region is one of the frame table. -/
theorem overlaps_frameTable {layout : X86memLayout} (hpos : 0 < layout.framelistNumframes) :
    (frameRegion ((layout.kernelEnd + layout.framelistNumframes) / pageSize)).Overlaps
      (frameTable layout) := by
  unfold Region.Overlaps frameRegion frameTable pageSize
  dsimp only
  omega

/-- It comes to the free list. -/
theorem frameTable_mem_freelist {endAddr memUpper : ℕ} (h : Fits endAddr memUpper) :
    ∃ m, memInit endAddr memUpper = .ok m ∧
      ((x86memInitLayout endAddr memUpper).kernelEnd +
        (x86memInitLayout endAddr memUpper).framelistNumframes) / pageSize ∈ m.pool.freelist := by
  obtain ⟨m, hok, -, -, -, hfree⟩ := memInit_ok h
  refine ⟨m, hok, ?_⟩
  have hpos := h.framelistNumframes_pos
  have hroom := h.room
  have hlast : (x86memInitLayout endAddr memUpper).kernelEnd +
      (x86memInitLayout endAddr memUpper).framelistNumframes <
        (x86memInitLayout endAddr memUpper).numframes * pageSize := by
    unfold pageSize at hroom ⊢
    omega
  -- the first round of the loop over the last region
  rw [hfree, List.mem_append, regionFrames, regionFrames, addresses_of_lt (by decide) hlast,
    List.map_cons]
  exact .inr List.mem_cons_self

/-- Whatever the size of the memory and the end of the kernel: after `mem_init` a frame of the frame
table is on the free list. -/
theorem memInit_frameTable_free {endAddr memUpper : ℕ} (h : Fits endAddr memUpper) :
    ∃ m, memInit endAddr memUpper = .ok m ∧
      ¬m.KeepsOut (reserved (x86memInitLayout endAddr memUpper) ++
        [frameTable (x86memInitLayout endAddr memUpper)]) := by
  obtain ⟨m, hok, hfree⟩ := frameTable_mem_freelist h
  refine ⟨m, hok, fun hkeeps => ?_⟩
  exact hkeeps.free _ hfree _ (by simp) (overlaps_frameTable h.framelistNumframes_pos)

/-- A machine with 16 MB, and a kernel of 252 KB. -/
theorem fits_16mb : Fits 0x140000 15360 :=
  ⟨by decide, by decide, by decide, by decide⟩

theorem memInit_frameTable_free_16mb :
    ∃ m, memInit 0x140000 15360 = .ok m ∧
      ¬m.KeepsOut (reserved (x86memInitLayout 0x140000 15360) ++
        [frameTable (x86memInitLayout 0x140000 15360)]) :=
  memInit_frameTable_free fits_16mb

/-- There the first frame of the table is free. -/
theorem not_keepsOut_16mb :
    frameTable (x86memInitLayout 0x140000 15360) = ⟨0x140000, 0x15C000⟩ ∧
      frameRegion 320 = ⟨0x140000, 0x141000⟩ ∧
      ∃ m, memInit 0x140000 15360 = .ok m ∧ 320 ∈ m.pool.freelist ∧
        ¬m.KeepsOut (reserved (x86memInitLayout 0x140000 15360) ++
          [frameTable (x86memInitLayout 0x140000 15360)]) := by
  obtain ⟨m, hok, hfree⟩ := frameTable_mem_freelist fits_16mb
  refine ⟨by decide, by decide, m, hok, hfree, fun hkeeps => ?_⟩
  exact hkeeps.free _ hfree _ (by simp) (overlaps_frameTable fits_16mb.framelistNumframes_pos)

/-- The other regions are kept out of the free list, and all of them out of the heap. -/
theorem memInit_keepsOut {endAddr memUpper : ℕ} (h : Fits endAddr memUpper) :
    ∃ m, memInit endAddr memUpper = .ok m ∧
      m.KeepsOut (reserved (x86memInitLayout endAddr memUpper)) ∧
      ¬Region.Overlaps ⟨m.heapstart, m.heapend⟩
        (frameTable (x86memInitLayout endAddr memUpper)) := by
  obtain ⟨m, hok, -, hstart, hstop, hfree⟩ := memInit_ok h
  have hend := h.kernelEnd
  have halign : (x86memInitLayout endAddr memUpper).kernelEnd % pageSize = 0 := memRoundToPage_mod
  refine ⟨m, hok, ⟨fun frame hframe r hr => ?_, fun r hr => ?_⟩, ?_⟩
  · -- the frames between the heap and the ISA hole, and those behind the kernel
    have hwhere : 129 ≤ frame ∧ frame < 160 ∨
        (x86memInitLayout endAddr memUpper).kernelEnd ≤ frame * 4096 := by
      rw [hfree, List.mem_append, mem_regionFrames, mem_regionFrames] at hframe
      unfold pageSize heapSize isaHoleStart at *
      rcases hframe with ⟨k, hk, rfl⟩ | ⟨k, hk, rfl⟩
      · exact .inl (by omega)
      · exact .inr (by omega)
    simp only [reserved, List.mem_cons, List.not_mem_nil, or_false] at hr
    unfold Region.Overlaps frameRegion
    unfold pageSize isaHoleStart isaHoleEnd kernStack at *
    rcases hr with rfl | rfl | rfl | rfl <;> dsimp only <;> omega
  · rw [hstart, hstop]
    simp only [reserved, List.mem_cons, List.not_mem_nil, or_false] at hr
    unfold Region.Overlaps
    unfold pageSize heapSize isaHoleStart isaHoleEnd kernStack at *
    rcases hr with rfl | rfl | rfl | rfl <;> dsimp only <;> omega
  · rw [hstart, hstop]
    unfold Region.Overlaps frameTable
    unfold pageSize heapSize kernStack at *
    dsimp only
    omega

end GeekOS.Memory
