import Mathlib.Tactic.IntervalCases
import GeekOS.Cpu.Context

/-!
# Descriptors

The segment descriptors and the interrupt gates of `x86_cpu.c`, with the way in which the processor
reads them.

* `segInitCode`, `segInitData`, `segInitTss`: the functions that put a descriptor together;
* `Segment.ofDescriptor`: what the processor makes of it;
* `ofDescriptor_segInitCode_segInitData`: base and size come back, whatever they are;
* `translate_segInitGdt`: the segments of the kernel are flat, and have its privilege;
* `Gate.ofWords_initIntGate`: an interrupt gate leads to the address that it was made for.
-/

namespace GeekOS.Cpu

/-- `struct x86_segment_descriptor`. -/
structure SegmentDescriptor where
  low : BitVec 32
  high : BitVec 32
  deriving DecidableEq, Repr

/-- `SEG_PAGE_GRANULARITY`. -/
def segPageGranularity : BitVec 32 := 1 <<< 23

/-- `SEG_PRESENT`. -/
def segPresent : BitVec 32 := 1 <<< 15

/-- `SEG_CODE_OR_DATA`. -/
def segCodeOrData : BitVec 32 := 1 <<< 12

/-- `SEG_DB`. -/
def segDb : BitVec 32 := 1 <<< 22

/-- `SEG_TYPE_CODE`. -/
def segTypeCode : BitVec 32 := 0xA <<< 8

/-- `SEG_TYPE_DATA`. -/
def segTypeData : BitVec 32 := 0x2 <<< 8

/-- `SEG_TYPE_TSS`. -/
def segTypeTss : BitVec 32 := 0x9 <<< 8

/-- `sizeof(struct x86_tss)`. -/
def sizeofTss : BitVec 32 := 104

/-- `x86_seg_init_base_and_limit`. -/
def segInitBaseAndLimit (desc : SegmentDescriptor) (base limit : BitVec 32) (isPages : Bool) :
    SegmentDescriptor where
  low := desc.low ||| (limit &&& 0xFFFF) ||| ((base &&& 0xFFFF) <<< 16)
  high := desc.high ||| (limit &&& 0xF0000) ||| ((base >>> 16) &&& 0xFF) |||
    (base &&& 0xFF000000) ||| (if isPages then segPageGranularity else 0)

/-- The part that `x86_seg_init_code` and `x86_seg_init_data` share. It fails if the assertion on
the privilege does. -/
def segInitPages (type : BitVec 32) (desc : SegmentDescriptor) (base numPages : BitVec 32)
    (priv : ℤ) : Option SegmentDescriptor :=
  if 0 ≤ priv ∧ priv ≤ 3 then
    let desc := segInitBaseAndLimit desc base (numPages - 1) true
    some { desc with
      high := desc.high ||| (type ||| segCodeOrData ||| segPresent ||| segDb) |||
        ((BitVec.ofInt 32 priv &&& 0x3) <<< 13) }
  else none

/-- `x86_seg_init_code`. -/
def segInitCode := segInitPages segTypeCode

/-- `x86_seg_init_data`. -/
def segInitData := segInitPages segTypeData

/-- `x86_seg_init_tss`. -/
def segInitTss (desc : SegmentDescriptor) (tss : BitVec 32) : SegmentDescriptor :=
  let desc := segInitBaseAndLimit desc tss sizeofTss false
  { desc with high := desc.high ||| (segTypeTss ||| segPresent) }

/-! ## What the processor reads -/

/-- A segment, as the processor sees it. -/
structure Segment where
  base : BitVec 32
  /-- The last offset that belongs to it. -/
  limit : ℕ
  type : BitVec 4
  codeOrData : Bool
  dpl : BitVec 2
  present : Bool
  db : Bool
  deriving DecidableEq, Repr

/-- The processor reads a descriptor. -/
def Segment.ofDescriptor (desc : SegmentDescriptor) : Segment where
  base := desc.high.extractLsb' 24 8 ++ desc.high.extractLsb' 0 8 ++ desc.low.extractLsb' 16 16
  limit :=
    let raw := (desc.high.extractLsb' 16 4 ++ desc.low.extractLsb' 0 16).toNat
    if desc.high.getLsbD 23 then raw * 4096 + 4095 else raw
  type := desc.high.extractLsb' 8 4
  codeOrData := desc.high.getLsbD 12
  dpl := desc.high.extractLsb' 13 2
  present := desc.high.getLsbD 15
  db := desc.high.getLsbD 22

variable {base limit numPages tss : BitVec 32} {priv : ℤ}

/-- The two halves of a limit. -/
theorem toNat_limit (limit : BitVec 32) :
    (limit.extractLsb' 16 4 ++ limit.extractLsb' 0 16).toNat = limit.toNat % 2 ^ 20 := by
  rw [BitVec.extractLsb'_append_extractLsb'_eq_extractLsb' (show 16 = 0 + 16 from rfl),
    BitVec.extractLsb'_toNat, Nat.shiftRight_zero]

/-- The three parts of a base. -/
theorem append_base (base : BitVec 32) :
    base.extractLsb' 24 8 ++ base.extractLsb' 16 8 ++ base.extractLsb' 0 16 = base := by
  rw [BitVec.extractLsb'_append_extractLsb'_eq_extractLsb' (show 24 = 16 + 8 from rfl),
    BitVec.extractLsb'_append_extractLsb'_eq_extractLsb' (show 16 = 0 + 16 from rfl),
    BitVec.extractLsb'_eq_self]

/-- The attributes of a segment, in the places that base and limit leave. -/
def segAttributes (type : BitVec 4) (codeOrData : Bool) (dpl : BitVec 2) (db : Bool) : BitVec 32 :=
  type.setWidth 32 <<< 8 ||| (BitVec.ofBool codeOrData).setWidth 32 <<< 12 |||
    dpl.setWidth 32 <<< 13 ||| segPresent ||| (BitVec.ofBool db).setWidth 32 <<< 22

variable (base limit) in
/-- Base, limit and attributes come back. -/
theorem ofDescriptor_segInitBaseAndLimit (isPages : Bool) (type : BitVec 4) (codeOrData : Bool)
    (dpl : BitVec 2) (db : Bool) :
    Segment.ofDescriptor
        { segInitBaseAndLimit ⟨0, 0⟩ base limit isPages with
          high := (segInitBaseAndLimit ⟨0, 0⟩ base limit isPages).high |||
            segAttributes type codeOrData dpl db } =
      { base
        limit := if isPages then limit.toNat % 2 ^ 20 * 4096 + 4095 else limit.toNat % 2 ^ 20
        type
        codeOrData
        dpl
        present := true
        db } := by
  have hpages : (if isPages then segPageGranularity else 0) =
      (BitVec.ofBool isPages).setWidth 32 <<< 23 := by
    cases isPages <;> rfl
  let high : BitVec 32 := (segInitBaseAndLimit ⟨0, 0⟩ base limit isPages).high |||
    segAttributes type codeOrData dpl db
  let low : BitVec 32 := (segInitBaseAndLimit ⟨0, 0⟩ base limit isPages).low
  have hhigh : high = 0 ||| (limit &&& 0xF0000) ||| ((base >>> 16) &&& 0xFF) |||
      (base &&& 0xFF000000) ||| (BitVec.ofBool isPages).setWidth 32 <<< 23 |||
      (type.setWidth 32 <<< 8 ||| (BitVec.ofBool codeOrData).setWidth 32 <<< 12 |||
      dpl.setWidth 32 <<< 13 ||| 0x8000 ||| (BitVec.ofBool db).setWidth 32 <<< 22) := by
    rw [← hpages]
    rfl
  have hlow : low = 0 ||| (limit &&& 0xFFFF) ||| ((base &&& 0xFFFF) <<< 16) := rfl
  have hbase : high.extractLsb' 24 8 = base.extractLsb' 24 8 ∧
      high.extractLsb' 0 8 = base.extractLsb' 16 8 ∧
      low.extractLsb' 16 16 = base.extractLsb' 0 16 := by
    rw [hhigh, hlow]
    refine ⟨?_, ?_, ?_⟩ <;>
    · ext i hi
      interval_cases i <;> simp
  have hlimit : high.extractLsb' 16 4 = limit.extractLsb' 16 4 ∧
      low.extractLsb' 0 16 = limit.extractLsb' 0 16 := by
    rw [hhigh, hlow]
    refine ⟨?_, ?_⟩ <;>
    · ext i hi
      interval_cases i <;> simp
  have hattrs : high.extractLsb' 8 4 = type ∧ high.extractLsb' 13 2 = dpl := by
    rw [hhigh]
    refine ⟨?_, ?_⟩ <;>
    · ext i hi
      interval_cases i <;> simp
  have hbits : high.getLsbD 12 = codeOrData ∧ high.getLsbD 15 = true ∧ high.getLsbD 22 = db ∧
      high.getLsbD 23 = isPages := by
    rw [hhigh]
    refine ⟨?_, ?_, ?_, ?_⟩ <;> simp
  show Segment.ofDescriptor ⟨low, high⟩ = _
  rw [Segment.ofDescriptor]
  dsimp only
  rw [hbase.1, hbase.2.1, hbase.2.2, hlimit.1, hlimit.2, hattrs.1, hattrs.2, hbits.1, hbits.2.1,
    hbits.2.2.1, hbits.2.2.2, append_base, toNat_limit]

/-- What the processor makes of a segment of pages. -/
def pageSegment (type : BitVec 4) (base numPages : BitVec 32) (priv : ℤ) : Segment where
  base
  limit := ((numPages.toNat + (2 ^ 20 - 1)) % 2 ^ 20 + 1) * 4096 - 1
  type
  codeOrData := true
  dpl := BitVec.ofInt 2 priv
  present := true
  db := true

theorem ofDescriptor_segInitPages (type : BitVec 4) :
    (segInitPages (type.setWidth 32 <<< 8) ⟨0, 0⟩ base numPages priv).map Segment.ofDescriptor =
      if 0 ≤ priv ∧ priv ≤ 3 then some (pageSegment type base numPages priv) else none := by
  rw [segInitPages]
  split
  next hpriv =>
    have hdpl : BitVec.ofInt 32 priv &&& 0x3 = (BitVec.ofInt 2 priv).setWidth 32 := by
      obtain ⟨hlo, hhi⟩ := hpriv
      interval_cases priv <;> rfl
    have hattrs : (type.setWidth 32 <<< 8 ||| segCodeOrData ||| segPresent ||| segDb) |||
        ((BitVec.ofInt 32 priv &&& 0x3) <<< 13) =
          segAttributes type true (BitVec.ofInt 2 priv) true := by
      have hs : segCodeOrData = (BitVec.ofBool true).setWidth 32 <<< 12 := rfl
      have hdb : segDb = (BitVec.ofBool true).setWidth 32 <<< 22 := rfl
      rw [segAttributes, hdpl, hs, hdb]
      ac_rfl
    have hread := ofDescriptor_segInitBaseAndLimit base (numPages - 1) true type
      true (BitVec.ofInt 2 priv) true
    rw [← hattrs, ← BitVec.or_assoc] at hread
    have hlimit : (numPages - 1).toNat % 2 ^ 20 * 4096 + 4095 =
        ((numPages.toNat + (2 ^ 20 - 1)) % 2 ^ 20 + 1) * 4096 - 1 := by
      have hone : (1 : BitVec 32).toNat = 1 := rfl
      rw [BitVec.toNat_sub, hone]
      omega
    rw [pageSegment, ← hlimit]
    exact congrArg some hread
  next => rfl

/-- Segments for code and for data: base and size come back, whatever they are, with the privilege.
The size is taken modulo 2^20 pages, and no pages at all stand for all of them. The functions fail
just when the privilege is not one of the four. -/
theorem ofDescriptor_segInitCode_segInitData (base numPages : BitVec 32) (priv : ℤ) :
    (segInitCode ⟨0, 0⟩ base numPages priv).map Segment.ofDescriptor =
        (if 0 ≤ priv ∧ priv ≤ 3 then some (pageSegment 0xA base numPages priv) else none) ∧
      (segInitData ⟨0, 0⟩ base numPages priv).map Segment.ofDescriptor =
        (if 0 ≤ priv ∧ priv ≤ 3 then some (pageSegment 0x2 base numPages priv) else none) :=
  ⟨ofDescriptor_segInitPages 0xA, ofDescriptor_segInitPages 0x2⟩

/-- The segment of a task: its limit is the size of the structure, which is one byte more than the
structure has. -/
theorem ofDescriptor_segInitTss :
    Segment.ofDescriptor (segInitTss ⟨0, 0⟩ tss) =
      { base := tss, limit := 104, type := 9, codeOrData := false, dpl := 0, present := true,
        db := false } := by
  have hattrs : segTypeTss ||| segPresent = segAttributes 9 false 0 false := rfl
  rw [segInitTss, hattrs]
  exact ofDescriptor_segInitBaseAndLimit tss sizeofTss false 9 false 0 false

/-! ## The descriptor table -/

/-- `PRIV_KERN`. -/
def privKern : ℤ := 0

/-- The descriptors that `x86_seg_init_gdt` puts into the table. -/
def segInitGdt (sTss : BitVec 32) : Option (List SegmentDescriptor) := do
  let code ← segInitCode ⟨0, 0⟩ 0 1048576 privKern
  let data ← segInitData ⟨0, 0⟩ 0 1048576 privKern
  return [⟨0, 0⟩, code, data, segInitTss ⟨0, 0⟩ sTss]

/-- The segment that a selector leads to. The first descriptor is not used. -/
def segmentOf (gdt : List SegmentDescriptor) (sel : BitVec 16) : Option Segment :=
  if sel >>> 3 = 0 then none else (gdt[(sel >>> 3).toNat]?).map Segment.ofDescriptor

/-- The address that a selector and an offset lead to. -/
def translate (gdt : List SegmentDescriptor) (sel : BitVec 16) (offset : BitVec 32) :
    Option (BitVec 32) := do
  let seg ← segmentOf gdt sel
  if seg.present ∧ offset.toNat ≤ seg.limit then some (seg.base + offset) else none

/-- The privilege level that a selector asks for. -/
def requestedPrivilege (sel : BitVec 16) : BitVec 2 := sel.setWidth 2

/-- The segments of the kernel are flat: an offset is an address, for code and for data. Both have
the privilege of the kernel, and the selectors ask for it. -/
theorem translate_segInitGdt (sTss : BitVec 32) :
    ∃ gdt, segInitGdt sTss = some gdt ∧
      (∀ offset, translate gdt kernCs offset = some offset) ∧
      (∀ offset, translate gdt kernDs offset = some offset) ∧
      (∃ seg, segmentOf gdt kernCs = some seg ∧ seg.type = 0xA ∧
        seg.dpl = BitVec.ofInt 2 privKern ∧ requestedPrivilege kernCs = seg.dpl) ∧
      ∃ seg, segmentOf gdt kernDs = some seg ∧ seg.type = 0x2 ∧
        seg.dpl = BitVec.ofInt 2 privKern ∧ requestedPrivilege kernDs = seg.dpl := by
  obtain ⟨code, hcode⟩ : ∃ code, segInitCode ⟨0, 0⟩ 0 1048576 privKern = some code := ⟨_, rfl⟩
  obtain ⟨data, hdata⟩ : ∃ data, segInitData ⟨0, 0⟩ 0 1048576 privKern = some data := ⟨_, rfl⟩
  -- what the processor reads from the two descriptors that have been written
  have hcode' : Segment.ofDescriptor code = pageSegment 0xA 0 1048576 privKern := by
    have hread : (segInitCode ⟨0, 0⟩ 0 1048576 privKern).map Segment.ofDescriptor = _ :=
      ofDescriptor_segInitPages 0xA
    rw [hcode, if_pos (by decide)] at hread
    exact Option.some.inj hread
  have hdata' : Segment.ofDescriptor data = pageSegment 0x2 0 1048576 privKern := by
    have hread : (segInitData ⟨0, 0⟩ 0 1048576 privKern).map Segment.ofDescriptor = _ :=
      ofDescriptor_segInitPages 0x2
    rw [hdata, if_pos (by decide)] at hread
    exact Option.some.inj hread
  -- a segment that begins at 0 and ends at the last address hides nothing
  have hsegment : ∀ sel desc, segmentOf [⟨0, 0⟩, code, data, segInitTss ⟨0, 0⟩ sTss] sel =
      some desc → desc.base = 0 → desc.limit = 2 ^ 32 - 1 → desc.present = true →
      ∀ offset, translate [⟨0, 0⟩, code, data, segInitTss ⟨0, 0⟩ sTss] sel offset =
        some offset := by
    intro sel desc hsel hbase hlimit hpresent offset
    have hlt := offset.isLt
    rw [translate, hsel]
    show (if _ then _ else _) = _
    rw [hpresent, hlimit, hbase, if_pos ⟨rfl, by omega⟩]
    exact congrArg some (BitVec.zero_add offset)
  refine ⟨[⟨0, 0⟩, code, data, segInitTss ⟨0, 0⟩ sTss], ?_, ?_, ?_, ?_, ?_⟩
  · rw [segInitGdt, hcode, hdata]
    rfl
  · exact hsegment kernCs (Segment.ofDescriptor code) rfl (by rw [hcode']; rfl) (by rw [hcode']; rfl)
      (by rw [hcode']; rfl)
  · exact hsegment kernDs (Segment.ofDescriptor data) rfl (by rw [hdata']; rfl) (by rw [hdata']; rfl)
      (by rw [hdata']; rfl)
  · refine ⟨Segment.ofDescriptor code, rfl, ?_⟩
    rw [hcode']
    exact ⟨rfl, rfl, rfl⟩
  · refine ⟨Segment.ofDescriptor data, rfl, ?_⟩
    rw [hdata']
    exact ⟨rfl, rfl, rfl⟩

/-! ## Interrupt gates -/

/-- `struct x86_interrupt_gate`. -/
structure InterruptGate where
  offsetLow : BitVec 16
  segmentSelector : BitVec 16
  reserved : BitVec 5
  signature : BitVec 8
  dpl : BitVec 2
  present : BitVec 1
  offsetHigh : BitVec 16
  deriving DecidableEq, Repr

/-- `x86_init_int_gate`. -/
def initIntGate (addr : BitVec 32) (dpl : ℤ) : InterruptGate where
  offsetLow := (addr &&& 0xffff).setWidth 16
  segmentSelector := kernCs
  reserved := 0
  signature := 0x70
  dpl := BitVec.ofInt 2 dpl
  present := 1
  offsetHigh := (addr >>> 16).setWidth 16

/-- The two words of a gate in memory, with the first field in the lowest bits. -/
def InterruptGate.words (g : InterruptGate) : List (BitVec 32) :=
  [g.offsetLow.setWidth 32 ||| g.segmentSelector.setWidth 32 <<< 16,
    g.reserved.setWidth 32 ||| g.signature.setWidth 32 <<< 5 ||| g.dpl.setWidth 32 <<< 13 |||
      g.present.setWidth 32 <<< 15 ||| g.offsetHigh.setWidth 32 <<< 16]

/-- A gate, as the processor sees it. -/
structure Gate where
  offset : BitVec 32
  selector : BitVec 16
  type : BitVec 5
  dpl : BitVec 2
  present : Bool
  deriving DecidableEq, Repr

/-- The processor reads the words of a gate. -/
def Gate.ofWords (low high : BitVec 32) : Gate where
  offset := high.extractLsb' 16 16 ++ low.extractLsb' 0 16
  selector := low.extractLsb' 16 16
  type := high.extractLsb' 8 5
  dpl := high.extractLsb' 13 2
  present := high.getLsbD 15

/-- The type of an interrupt gate of 32 bits. -/
def interruptGate32 : BitVec 5 := 0xE

/-- The fields of a gate, in the words that the processor reads. -/
theorem Gate.ofWords_words {g : InterruptGate} {low high : BitVec 32} (h : g.words = [low, high]) :
    Gate.ofWords low high =
      { offset := g.offsetHigh ++ g.offsetLow
        selector := g.segmentSelector
        type := g.signature.extractLsb' 3 5
        dpl := g.dpl
        present := g.present.getLsbD 0 } := by
  obtain ⟨hlow, hhigh⟩ : g.offsetLow.setWidth 32 ||| g.segmentSelector.setWidth 32 <<< 16 = low ∧
      g.reserved.setWidth 32 ||| g.signature.setWidth 32 <<< 5 ||| g.dpl.setWidth 32 <<< 13 |||
        g.present.setWidth 32 <<< 15 ||| g.offsetHigh.setWidth 32 <<< 16 = high := by
    simpa [InterruptGate.words] using h
  have hwords : low.extractLsb' 0 16 = g.offsetLow ∧ low.extractLsb' 16 16 = g.segmentSelector ∧
      high.extractLsb' 16 16 = g.offsetHigh := by
    rw [← hlow, ← hhigh]
    refine ⟨?_, ?_, ?_⟩ <;>
    · ext i hi
      interval_cases i <;> simp
  have hfields : high.extractLsb' 8 5 = g.signature.extractLsb' 3 5 ∧
      high.extractLsb' 13 2 = g.dpl := by
    rw [← hhigh]
    refine ⟨?_, ?_⟩ <;>
    · ext i hi
      interval_cases i <;> simp
  have hpresent : high.getLsbD 15 = g.present.getLsbD 0 := by
    rw [← hhigh]
    simp
  rw [Gate.ofWords, hwords.1, hwords.2.1, hwords.2.2, hfields.1, hfields.2, hpresent]

/-- The halves of an address. -/
theorem setWidth_halves (addr : BitVec 32) :
    (addr >>> 16).setWidth 16 = addr.extractLsb' 16 16 ∧
      (addr &&& 0xffff).setWidth 16 = addr.extractLsb' 0 16 := by
  refine ⟨?_, ?_⟩ <;>
  · ext i hi
    interval_cases i <;> simp

theorem append_halves (addr : BitVec 32) :
    addr.extractLsb' 16 16 ++ addr.extractLsb' 0 16 = addr := by
  rw [BitVec.extractLsb'_append_extractLsb'_eq_extractLsb' (show 16 = 0 + 16 from rfl),
    BitVec.extractLsb'_eq_self]

/-- A gate leads to the address that it was made for, through an interrupt gate of 32 bits. -/
theorem Gate.ofWords_initIntGate (addr : BitVec 32) (dpl : ℤ) {low high : BitVec 32}
    (h : (initIntGate addr dpl).words = [low, high]) :
    Gate.ofWords low high =
      { offset := addr, selector := kernCs, type := interruptGate32, dpl := BitVec.ofInt 2 dpl,
        present := true } := by
  have htype : (0x70 : BitVec 8).extractLsb' 3 5 = interruptGate32 := by decide
  have hpresent : (1 : BitVec 1).getLsbD 0 = true := by decide
  rw [Gate.ofWords_words h]
  show Gate.mk ((addr >>> 16).setWidth 16 ++ (addr &&& 0xffff).setWidth 16) kernCs
    ((0x70 : BitVec 8).extractLsb' 3 5) (BitVec.ofInt 2 dpl) ((1 : BitVec 1).getLsbD 0) = _
  rw [(setWidth_halves addr).1, (setWidth_halves addr).2, append_halves, htype, hpresent]

end GeekOS.Cpu
