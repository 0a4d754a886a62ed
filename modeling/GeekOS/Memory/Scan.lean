import GeekOS.Memory.Regions

/-!
# Scanning any regions

`mem_scan_region` of `mem.c`, called for regions that follow one another as those of
`mem_scan_regions` do: page-aligned, not empty, each from where the one before it ends, with any
states.

* `Scans`: what one call does to the states of the frames, to the free list and to the numbers, with
  the heap taken from its region or not;
* `Scanned`: what holds between two calls, and `Scanned.snoc`: a call keeps it;
* `scansRightly_iff`: the regions for which everything is right. A region of the size of the heap is
  not, if it is the one that the heap is taken from: nothing of it is left for the loop, which
  asserts that it has something to do.
-/

namespace GeekOS.Memory

open Result AddressLoop

/-- The arguments of a call of `mem_scan_region`. -/
structure MemRegion where
  start : ℕ
  stop : ℕ
  state : FrameState
  deriving DecidableEq, Repr

namespace MemRegion

/-- The region is page-aligned and not empty, and its end is an address. -/
structure Valid (r : MemRegion) : Prop where
  nonempty : r.start < r.stop
  stop_lt : r.stop < 2 ^ 32
  start_aligned : r.start % pageSize = 0
  stop_aligned : r.stop % pageSize = 0

/-- The frame is in the region. -/
def Covers (r : MemRegion) (frame : ℕ) : Prop :=
  r.start ≤ frame * pageSize ∧ frame * pageSize < r.stop

instance (r : MemRegion) (frame : ℕ) : Decidable (r.Covers frame) :=
  inferInstanceAs (Decidable (_ ∧ _))

/-- The heap can be taken from the region. -/
def Large (r : MemRegion) : Prop := r.state = .avail ∧ heapSize ≤ r.stop - r.start

instance (r : MemRegion) : Decidable r.Large := inferInstanceAs (Decidable (_ ∧ _))

end MemRegion

/-- Regions from `addr` on, each from where the one before it ends. -/
def Adjacent : ℕ → List MemRegion → Prop
  | _, [] => True
  | addr, r :: regions => r.start = addr ∧ r.Valid ∧ Adjacent r.stop regions

/-- Calls of `mem_scan_region`, and the addresses that they return. -/
def scanRegions : List MemRegion → MemState → ScanRegionData →
    Except Fault (List ℕ × MemState × ScanRegionData)
  | [], m, data => .ok ([], m, data)
  | r :: regions, m, data => do
      let (addr, m, data) ← memScanRegion r.start r.stop r.state m data
      let (addrs, m, data) ← scanRegions regions m data
      pure (addr :: addrs, m, data)

/-- The first available region that is large enough for the heap. -/
def heapRegion (regions : List MemRegion) : Option MemRegion := regions.find? (·.Large)

/-- The state of the frames at `addr` in a region. -/
def finalState (heap : Option MemRegion) (r : MemRegion) (addr : ℕ) : FrameState :=
  if heap = some r ∧ addr < r.start + heapSize then .heap else r.state

/-! ## One region -/

section Region

variable {start stop : ℕ} {state : FrameState} {frame : ℕ}

theorem regionFrames_eq (start stop : ℕ) :
    regionFrames start stop =
      (List.range ((stop - start + (pageSize - 1)) / pageSize)).map (start / pageSize + ·) := by
  rw [regionFrames, addresses, List.map_map]
  refine List.map_congr_left fun k _ => ?_
  rw [Function.comp_apply, Nat.add_mul_div_right _ _ (by decide)]

/-- The frames of a region are in the order of their addresses. -/
theorem regionFrames_pairwise : (regionFrames start stop).Pairwise (· < ·) := by
  rw [regionFrames_eq, List.pairwise_map]
  exact List.pairwise_lt_range.imp fun h => Nat.add_lt_add_left h _

theorem mem_regionFrames_aligned (hstart : start % pageSize = 0) :
    frame ∈ regionFrames start stop ↔ start ≤ frame * pageSize ∧ frame * pageSize < stop := by
  rw [mem_regionFrames]
  unfold pageSize at *
  constructor
  · rintro ⟨k, hlt, rfl⟩
    omega
  · rintro ⟨hle, hlt⟩
    exact ⟨frame - start / 4096, by omega, by omega⟩

theorem regionFrames_length (hstart : start % pageSize = 0) (hstop : stop % pageSize = 0) :
    (regionFrames start stop).length = (stop - start) / pageSize := by
  rw [regionFrames_eq, List.length_map, List.length_range]
  unfold pageSize at *
  omega

theorem foldl_setFrameState_state (l : List ℕ) (pool : FramePool ℕ) :
    ((l.foldl (setFrameState state) pool).frame frame).state =
      if frame ∈ l.map (· / pageSize) then state else (pool.frame frame).state := by
  -- the last store to a frame counts, and all of them store the same state
  induction l generalizing pool with
  | nil => simp
  | cons a l ih =>
    have hone : ((setFrameState state pool a).frame frame).state =
        if frame = a / pageSize then state else (pool.frame frame).state := by
      have hframe : (setFrameState state pool a).frame =
          Function.update pool.frame (a / pageSize)
            { pool.frame (a / pageSize) with state } := by
        rw [setFrameState]
        split <;> rfl
      rw [hframe]
      by_cases hf : frame = a / pageSize
      · rw [if_pos hf, hf, Function.update_self]
      · rw [if_neg hf, Function.update_of_ne hf]
    rw [List.foldl_cons, ih, hone, List.map_cons]
    by_cases hl : frame ∈ l.map (· / pageSize)
    · rw [if_pos hl, if_pos (List.mem_cons_of_mem _ hl)]
    · rw [if_neg hl]
      exact if_congr (by simp only [List.mem_cons, hl, or_false]) rfl rfl

/-- `mem_set_region_state` of a region that is not empty. -/
theorem memSetRegionState_eq (state : FrameState) (h : start < stop)
    (hstart : start % pageSize = 0) (pool : FramePool ℕ) :
    ∃ pool', memSetRegionState pool start stop state = .ok pool' ∧
      pool'.freelist = pool.freelist ++ (if state = .avail then regionFrames start stop else []) ∧
      ∀ frame, (pool'.frame frame).state =
        if start ≤ frame * pageSize ∧ frame * pageSize < stop then state
        else (pool.frame frame).state := by
  refine ⟨_, ?_, foldl_setFrameState_freelist (addresses start stop pageSize) pool, fun frame => ?_⟩
  · rw [memSetRegionState, require, if_pos h, ok_bind]
    exact forAddress_eq_foldl (fun _ _ _ => rfl) pool
  · rw [foldl_setFrameState_state]
    exact if_congr (mem_regionFrames_aligned hstart) rfl rfl

/-- Nothing can be done with an empty region. -/
theorem memSetRegionState_empty (pool : FramePool ℕ) (h : stop ≤ start) :
    memSetRegionState pool start stop state = .error .emptyRegion := by
  rw [memSetRegionState, require, if_neg (Nat.not_lt.mpr h), error_bind]

end Region

/-- The heap is taken from the region. -/
def Takes (data : ScanRegionData) (r : MemRegion) : Prop := data.heapCreated = false ∧ r.Large

instance (data : ScanRegionData) (r : MemRegion) : Decidable (Takes data r) :=
  inferInstanceAs (Decidable (_ ∧ _))

/-- Where the frames of the region begin that are not the heap. -/
def rest (data : ScanRegionData) (r : MemRegion) : ℕ :=
  if Takes data r then r.start + heapSize else r.start

/-- What a call of `mem_scan_region` does. -/
structure Scans (data : ScanRegionData) (r : MemRegion) (m m' : MemState)
    (data' : ScanRegionData) : Prop where
  state : ∀ frame, (m'.pool.frame frame).state =
    if r.Covers frame then
      if Takes data r ∧ frame * pageSize < r.start + heapSize then .heap else r.state
    else (m.pool.frame frame).state
  freelist : m'.pool.freelist =
    m.pool.freelist ++ if r.state = .avail then regionFrames (rest data r) r.stop else []
  availPages : data'.availPages =
    data.availPages + if r.state = .avail then (r.stop - rest data r) / pageSize else 0
  bounds : (m'.heapstart, m'.heapend) =
    if Takes data r then (r.start, r.start + heapSize) else (m.heapstart, m.heapend)
  created : data'.heapCreated = true ↔ data.heapCreated = true ∨ r.Large
  size : data'.heapSize = if Takes data r then heapSize else data.heapSize

variable {r : MemRegion} {m m' m₀ : MemState} {data data' : ScanRegionData}

theorem ulongSub_of_le {a b : ℕ} (h : b ≤ a) (ha : a < 2 ^ 32) : ulongSub a b = a - b := by
  unfold ulongSub
  omega

/-- The loop over the frames of a region that are not the heap. -/
theorem memScanFrames_eq {start stop : ℕ} (state : FrameState) (m : MemState)
    (data : ScanRegionData) (h : start < stop) (hstop : stop < 2 ^ 32)
    (hstart : start % pageSize = 0) :
    ∃ pool', memScanFrames start stop state m data =
        .ok (stop, { m with pool := pool' }, { data with availPages := data.availPages +
          if state = .avail then (stop - start) / pageSize else 0 }) ∧
      pool'.freelist = m.pool.freelist ++
        (if state = .avail then regionFrames start stop else []) ∧
      ∀ frame, (pool'.frame frame).state =
        if start ≤ frame * pageSize ∧ frame * pageSize < stop then state
        else (m.pool.frame frame).state := by
  obtain ⟨pool', hok, hfree, hframe⟩ := memSetRegionState_eq state h hstart m.pool
  refine ⟨pool', ?_, hfree, hframe⟩
  rw [memScanFrames, hok, ok_bind, ulongSub_of_le h.le hstop]
  by_cases hstate : state = .avail
  · rw [if_pos hstate, if_pos hstate]
    rfl
  · rw [if_neg hstate, if_neg hstate]
    rfl

/-- The test for the heap. -/
theorem heapTest_iff (hr : r.Valid) :
    (data.heapCreated = false ∧ r.state = .avail ∧ heapSize ≤ ulongSub r.stop r.start) ↔
      Takes data r := by
  rw [ulongSub_of_le hr.nonempty.le hr.stop_lt]
  rfl

theorem rest_aligned (hr : r.Valid) : rest data r % pageSize = 0 := by
  have hstart := hr.start_aligned
  unfold rest
  split
  · unfold heapSize pageSize at *
    omega
  · exact hstart

/-- A region that has the heap and more. -/
theorem memScanRegion_takes (hr : r.Valid) (m : MemState) (htakes : Takes data r)
    (hsize : r.stop - r.start ≠ heapSize) :
    ∃ m' data', memScanRegion r.start r.stop r.state m data = .ok (r.stop, m', data') ∧
      Scans data r m m' data' := by
  have hrest : rest data r = r.start + heapSize := if_pos htakes
  have halign : (r.start + heapSize) % pageSize = 0 := hrest ▸ rest_aligned hr
  have hroom : r.start + heapSize < r.stop := by
    have hlarge := htakes.2.2
    have hlt := hr.nonempty
    omega
  have hstop := hr.stop_lt
  have hstart : r.start < r.start + heapSize := Nat.lt_add_of_pos_right (by decide)
  -- first the frames of the heap, then those behind it
  obtain ⟨pool₁, hok₁, hfree₁, hframe₁⟩ :=
    memSetRegionState_eq .heap hstart hr.start_aligned m.pool
  rw [if_neg (by decide), List.append_nil] at hfree₁
  obtain ⟨pool₂, hok₂, hfree₂, hframe₂⟩ := memScanFrames_eq r.state
    { m with pool := pool₁, heapstart := r.start, heapend := r.start + heapSize }
    { data with heapCreated := true, heapSize := heapSize } hroom hstop halign
  have hok : memScanRegion r.start r.stop r.state m data = .ok (r.stop,
      { m with pool := pool₂, heapstart := r.start, heapend := r.start + heapSize },
      { heapCreated := true, heapSize := heapSize, availPages := data.availPages +
          if r.state = .avail then (r.stop - (r.start + heapSize)) / pageSize else 0 }) := by
    rw [memScanRegion, if_pos ((heapTest_iff hr).mpr htakes), ulong_of_lt (by omega), hok₁, ok_bind]
    exact hok₂
  refine ⟨_, _, hok, fun frame => ?_, ?_, ?_, ?_, ?_, ?_⟩
  · -- a frame of the heap, one behind the heap, or one of another region
    rw [hframe₂, hframe₁]
    simp only [MemRegion.Covers, htakes, true_and]
    split_ifs <;> first | rfl | omega
  · rw [hfree₂, hfree₁, hrest]
  · rw [hrest]
  · rw [if_pos htakes]
  · exact iff_of_true rfl (.inr htakes.2)
  · rw [if_pos htakes]

/-- A region that the heap is not taken from. -/
theorem memScanRegion_keeps (hr : r.Valid) (m : MemState) (hkeeps : ¬Takes data r) :
    ∃ m' data', memScanRegion r.start r.stop r.state m data = .ok (r.stop, m', data') ∧
      Scans data r m m' data' := by
  have hrest : rest data r = r.start := if_neg hkeeps
  obtain ⟨pool', hok, hfree, hframe⟩ :=
    memScanFrames_eq r.state m data hr.nonempty hr.stop_lt hr.start_aligned
  have hscan : memScanRegion r.start r.stop r.state m data = .ok (r.stop, { m with pool := pool' },
      { data with availPages := data.availPages +
          if r.state = .avail then (r.stop - r.start) / pageSize else 0 }) := by
    rw [memScanRegion, if_neg (mt (heapTest_iff hr).mp hkeeps)]
    exact hok
  refine ⟨_, _, hscan, fun frame => ?_, ?_, ?_, ?_, ?_, ?_⟩
  · rw [hframe]
    refine if_congr Iff.rfl ?_ rfl
    rw [if_neg fun h => hkeeps h.1]
  · rw [hfree, hrest]
  · rw [hrest]
  · rw [if_neg hkeeps]
  · refine ⟨.inl, fun h => h.elim id fun hlarge => ?_⟩
    by_contra hnone
    exact hkeeps ⟨Bool.eq_false_iff.mpr hnone, hlarge⟩
  · rw [if_neg hkeeps]

/-- A call of `mem_scan_region` for a region that has nothing but the heap. -/
theorem memScanRegion_exact (hr : r.Valid) (m : MemState) (htakes : Takes data r)
    (hsize : r.stop - r.start = heapSize) :
    memScanRegion r.start r.stop r.state m data = .error .emptyRegion := by
  have hstop := hr.stop_lt
  have hlt := hr.nonempty
  have hstart : r.start < r.start + heapSize := Nat.lt_add_of_pos_right (by decide)
  obtain ⟨pool₁, hok₁, -⟩ := memSetRegionState_eq .heap hstart hr.start_aligned m.pool
  rw [memScanRegion, if_pos ((heapTest_iff hr).mpr htakes), ulong_of_lt (by omega), hok₁, ok_bind,
    memScanFrames, memSetRegionState_empty _ (by omega), error_bind]

/-! ## All regions -/

/-- Between two calls: the regions so far, and what the calls have done since `m₀`. -/
structure Scanned (m₀ : MemState) (regions : List MemRegion) (m : MemState)
    (data : ScanRegionData) : Prop where
  state : ∀ r ∈ regions, ∀ frame, r.Covers frame →
    (m.pool.frame frame).state = finalState (heapRegion regions) r (frame * pageSize)
  kept : ∀ frame, (∀ r ∈ regions, ¬r.Covers frame) →
    (m.pool.frame frame).state = (m₀.pool.frame frame).state
  sorted : m.pool.freelist.Pairwise (· < ·)
  free : ∀ frame, frame ∈ m.pool.freelist ↔
    (∃ r ∈ regions, r.Covers frame) ∧ (m.pool.frame frame).state = .avail
  availPages : data.availPages = m.pool.freelist.length
  created : data.heapCreated = (heapRegion regions).isSome
  bounds : (m.heapstart, m.heapend) = match heapRegion regions with
    | some r => (r.start, r.start + heapSize)
    | none => (m₀.heapstart, m₀.heapend)
  size : data.heapSize = if (heapRegion regions).isSome then heapSize else 0

variable {regions : List MemRegion}

theorem heapRegion_append (regions : List MemRegion) (r : MemRegion) :
    heapRegion (regions ++ [r]) =
      (heapRegion regions).or (if r.Large then some r else none) := by
  rw [heapRegion, List.find?_append]
  by_cases hlarge : r.Large <;> simp [hlarge, heapRegion]

theorem heapRegion_mem (h : heapRegion regions = some r) : r ∈ regions := List.mem_of_find?_eq_some h

theorem Scanned.takes_iff (h : Scanned m₀ regions m data) :
    Takes data r ↔ heapRegion regions = none ∧ r.Large := by
  rw [Takes, h.created, Option.isSome_eq_false_iff, Option.isNone_iff_eq_none]

/-- The regions begin and end below the next one. -/
def Below (regions : List MemRegion) (addr : ℕ) : Prop :=
  ∀ q ∈ regions, q.start < addr ∧ q.stop ≤ addr

theorem Below.not_covers (h : Below regions r.start) {q : MemRegion} (hq : q ∈ regions) {frame : ℕ}
    (hcovers : q.Covers frame) : ¬r.Covers frame := by
  intro hr
  have hstop := (h q hq).2
  have hlt := hcovers.2
  have hle := hr.1
  omega

theorem Below.not_mem (h : Below regions r.start) : r ∉ regions := fun hr =>
  absurd (h r hr).1 (Nat.lt_irrefl _)

/-- The frames of the regions so far keep the state that they have got. -/
theorem finalState_append (h : Below regions r.start) {q : MemRegion} (hq : q ∈ regions)
    (addr : ℕ) :
    finalState (heapRegion (regions ++ [r])) q addr = finalState (heapRegion regions) q addr := by
  -- a region that comes later is not the first one that is large enough
  have hne : r ≠ q := fun hrq => h.not_mem (hrq ▸ hq)
  rw [heapRegion_append]
  unfold finalState
  cases hheap : heapRegion regions with
  | some q' => rfl
  | none =>
    refine if_congr ?_ rfl rfl
    split <;> simp [hne]

/-- The frames of the region get the state that they keep. -/
theorem Scanned.finalState_new (h : Scanned m₀ regions m data) (hbelow : Below regions r.start)
    (addr : ℕ) :
    (if Takes data r ∧ addr < r.start + heapSize then FrameState.heap else r.state) =
      finalState (heapRegion (regions ++ [r])) r addr := by
  rw [heapRegion_append]
  unfold finalState
  refine if_congr (and_congr_left fun _ => ?_) rfl rfl
  rw [h.takes_iff]
  cases hheap : heapRegion regions with
  | some q =>
    have hne : q ≠ r := fun hqr => hbelow.not_mem (hqr ▸ heapRegion_mem hheap)
    simp [hne]
  | none => by_cases hlarge : r.Large <;> simp [hlarge]

/-- The frames of the free list that come from the region. -/
theorem mem_regionFrames_rest (hr : r.Valid) {frame : ℕ} :
    frame ∈ regionFrames (rest data r) r.stop ↔
      r.Covers frame ∧ ¬(Takes data r ∧ frame * pageSize < r.start + heapSize) := by
  rw [mem_regionFrames_aligned (rest_aligned hr)]
  unfold rest MemRegion.Covers
  split
  next htakes =>
    simp only [htakes, true_and]
    omega
  next hkeeps => simp only [hkeeps, false_and, not_false_eq_true, and_true]

/-- A call keeps it. -/
theorem Scanned.snoc (h : Scanned m₀ regions m data) (hr : r.Valid) (hbelow : Below regions r.start)
    (hscan : Scans data r m m' data') : Scanned m₀ (regions ++ [r]) m' data' where
  state q hq frame hcovers := by
    rw [hscan.state]
    rcases List.mem_append.mp hq with hold | hnew
    · rw [if_neg (hbelow.not_covers hold hcovers), h.state q hold frame hcovers,
        finalState_append hbelow hold]
    · obtain rfl := List.mem_singleton.mp hnew
      rw [if_pos hcovers, h.finalState_new hbelow]
  kept frame hnone := by
    rw [hscan.state, if_neg (hnone r (by simp))]
    exact h.kept frame fun q hq => hnone q (List.mem_append_left _ hq)
  sorted := by
    rw [hscan.freelist, List.pairwise_append]
    refine ⟨h.sorted, ?_, fun f hf g hg => ?_⟩
    · split
      · exact regionFrames_pairwise
      · exact .nil
    · obtain ⟨⟨q, hq, hcovers⟩, -⟩ := (h.free f).mp hf
      split at hg
      · -- the frames so far are below the region
        have hle := ((mem_regionFrames_rest hr).mp hg).1.1
        have hlt := hcovers.2
        have hstop := (hbelow q hq).2
        unfold pageSize at *
        omega
      · simp at hg
  free frame := by
    rw [hscan.freelist, hscan.state, List.mem_append, h.free]
    by_cases hcovers : r.Covers frame
    · -- a frame of the region, which no region before has
      have hold : ¬∃ q ∈ regions, q.Covers frame := fun ⟨q, hq, hq'⟩ =>
        hbelow.not_covers hq hq' hcovers
      have hnew : ∃ q ∈ regions ++ [r], q.Covers frame := ⟨r, by simp, hcovers⟩
      rw [if_pos hcovers]
      by_cases hheap : Takes data r ∧ frame * pageSize < r.start + heapSize
      · rw [if_pos hheap, if_pos hheap.1.2.1, mem_regionFrames_rest hr]
        simp [hold, hheap]
      · rw [if_neg hheap]
        split
        next havail => simp [hold, mem_regionFrames_rest hr, hcovers, hheap, havail]
        next havail => simp [hold, havail]
    · -- a frame of another region, or of none
      have hnew : frame ∉ (if r.state = .avail then regionFrames (rest data r) r.stop else []) := by
        split
        · exact fun hmem => hcovers ((mem_regionFrames_rest hr).mp hmem).1
        · exact List.not_mem_nil
      simp [hnew, hcovers, or_and_right, exists_or]
  availPages := by
    rw [hscan.availPages, hscan.freelist, List.length_append, h.availPages]
    split
    · rw [regionFrames_length (rest_aligned hr) hr.stop_aligned]
    · rfl
  created := by
    have hold := h.created
    have hnew := hscan.created
    rw [heapRegion_append, Bool.eq_iff_iff, hnew, hold]
    cases heapRegion regions <;> by_cases hlarge : r.Large <;> simp [hlarge]
  bounds := by
    rw [hscan.bounds, heapRegion_append, if_congr h.takes_iff rfl rfl, h.bounds]
    cases heapRegion regions <;> by_cases hlarge : r.Large <;> simp [hlarge]
  size := by
    rw [hscan.size, heapRegion_append, if_congr h.takes_iff rfl rfl, h.size]
    cases heapRegion regions <;> by_cases hlarge : r.Large <;> simp [hlarge]

/-- Before the first call, with nothing on the free list. -/
theorem Scanned.init (hfree : m₀.pool.freelist = []) : Scanned m₀ [] m₀ {} where
  state r hr := absurd hr List.not_mem_nil
  kept _ _ := rfl
  sorted := hfree ▸ .nil
  free frame := by
    simp [hfree]
  availPages := by
    rw [hfree]
    rfl
  created := rfl
  bounds := rfl
  size := rfl

theorem Below.snoc (h : Below regions r.start) (hr : r.Valid) : Below (regions ++ [r]) r.stop := by
  intro q hq
  have hlt := hr.nonempty
  rcases List.mem_append.mp hq with hold | hnew
  · obtain ⟨hstart, hstop⟩ := h q hold
    exact ⟨by omega, by omega⟩
  · obtain rfl := List.mem_singleton.mp hnew
    exact ⟨hlt, Nat.le_refl _⟩

/-- All calls keep it, if the heap is not the whole of its region. -/
theorem Scanned.scanRegions {done : List MemRegion} {addr : ℕ} (h : Scanned m₀ done m data)
    (hadj : Adjacent addr regions) (hbelow : Below done addr)
    (hsize : ∀ r, heapRegion (done ++ regions) = some r → r.stop - r.start ≠ heapSize) :
    ∃ m' data', scanRegions regions m data = .ok (regions.map (·.stop), m', data') ∧
      Scanned m₀ (done ++ regions) m' data' := by
  induction regions generalizing done addr m data with
  | nil => exact ⟨m, data, rfl, (List.append_nil done).symm ▸ h⟩
  | cons r regions ih =>
    obtain ⟨rfl, hr, hadj⟩ := hadj
    -- the call returns in both cases
    have hcall : ∃ m₁ data₁, memScanRegion r.start r.stop r.state m data = .ok (r.stop, m₁, data₁) ∧
        Scans data r m m₁ data₁ := by
      by_cases htakes : Takes data r
      · -- the heap is taken from the first region that is large enough
        refine memScanRegion_takes hr m htakes (hsize r ?_)
        obtain ⟨hnone, hlarge⟩ := h.takes_iff.mp htakes
        rw [← List.singleton_append, ← List.append_assoc, heapRegion, List.find?_append]
        rw [heapRegion] at hnone
        simp [hnone, hlarge]
      · exact memScanRegion_keeps hr m htakes
    obtain ⟨m₁, data₁, hok, hscan⟩ := hcall
    have hassoc : done ++ [r] ++ regions = done ++ r :: regions := by simp
    obtain ⟨m', data', hoks, hall⟩ :=
      ih (h.snoc hr hbelow hscan) hadj (hbelow.snoc hr) (hassoc.symm ▸ hsize)
    refine ⟨m', data', ?_, hassoc ▸ hall⟩
    rw [Memory.scanRegions, hok, ok_bind]
    dsimp only
    rw [hoks, ok_bind]
    rfl

/-- If all calls return, the heap is not the whole of its region. -/
theorem size_ne_of_scanRegions {addr : ℕ} {x : List ℕ × MemState × ScanRegionData}
    (hadj : Adjacent addr regions) (hdata : data.heapCreated = false)
    (hok : scanRegions regions m data = .ok x) (hheap : heapRegion regions = some r) :
    r.stop - r.start ≠ heapSize := by
  induction regions generalizing addr m data x with
  | nil => cases hheap
  | cons q regions ih =>
    obtain ⟨rfl, hq, hadj⟩ := hadj
    rw [heapRegion, List.find?_cons] at hheap
    rw [scanRegions] at hok
    by_cases hlarge : q.Large
    · -- this is the region of the heap, whose call would halt
      simp only [hlarge, decide_true, Option.some.injEq] at hheap
      subst hheap
      intro hsize
      rw [memScanRegion_exact hq m ⟨hdata, hlarge⟩ hsize] at hok
      cases hok
    · -- the heap is in one of the regions behind it
      simp only [hlarge, decide_false] at hheap
      obtain ⟨m₁, data₁, hcall, hscan⟩ := memScanRegion_keeps hq m fun h => hlarge h.2
      rw [hcall, ok_bind] at hok
      obtain ⟨y, hrest, -⟩ := Result.bind_eq_ok.mp hok
      refine ih hadj ?_ hrest hheap
      rw [Bool.eq_false_iff]
      exact fun hcreated => (hscan.created.mp hcreated).elim (by simp [hdata]) hlarge

/-- The calls return the ends of the regions, and the frames, the heap and the numbers are as they
should be. -/
def ScansRightly (m₀ : MemState) (regions : List MemRegion) : Prop :=
  ∃ m data, scanRegions regions m₀ {} = .ok (regions.map (·.stop), m, data) ∧
    Scanned m₀ regions m data

/-- Everything is right if and only if the heap is not the whole of the region that it is taken
from. -/
theorem scansRightly_iff {addr : ℕ} (hadj : Adjacent addr regions)
    (hfree : m₀.pool.freelist = []) :
    ScansRightly m₀ regions ↔
      ∀ r, heapRegion regions = some r → r.stop - r.start ≠ heapSize := by
  constructor
  · rintro ⟨m, data, hok, -⟩ r hheap
    exact size_ne_of_scanRegions hadj rfl hok hheap
  · intro hsize
    have hbelow : Below [] addr := fun q hq => absurd hq List.not_mem_nil
    exact (Scanned.init hfree).scanRegions hadj hbelow hsize

/-- The frame table and the free list before the first call. -/
def emptyMemory : MemState := ⟨⟨fun _ => {}, []⟩, 0, 1024, 0, 0⟩

/-- A region of the heap and one page, behind one that is too small. -/
theorem scansRightly_iff_two :
    ScansRightly emptyMemory [⟨0, pageSize, .avail⟩, ⟨pageSize, heapSize + 2 * pageSize, .avail⟩] ↔
      ∀ r, heapRegion [⟨0, pageSize, .avail⟩, ⟨pageSize, heapSize + 2 * pageSize, .avail⟩] = some r →
        r.stop - r.start ≠ heapSize :=
  scansRightly_iff ⟨rfl, ⟨by decide, by decide, by decide, by decide⟩, rfl,
    ⟨by decide, by decide, by decide, by decide⟩, trivial⟩ rfl

/-- A region of the size of the heap: the loop over the rest asserts that there is a rest. -/
theorem not_scansRightly_exact :
    ¬∀ (m₀ : MemState) (addr : ℕ) (regions : List MemRegion), Adjacent addr regions →
      m₀.pool.freelist = [] → ScansRightly m₀ regions := by
  intro h
  have hadj : Adjacent pageSize [⟨pageSize, pageSize + heapSize, .avail⟩] :=
    ⟨rfl, ⟨by decide, by decide, by decide, by decide⟩, trivial⟩
  obtain ⟨m, data, hok, -⟩ := h emptyMemory pageSize _ hadj rfl
  exact size_ne_of_scanRegions hadj rfl hok rfl rfl

end GeekOS.Memory
