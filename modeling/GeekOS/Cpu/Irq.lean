import GeekOS.Library.Execution
import GeekOS.Library.I8259

/-!
# Interrupt requests

The functions of `x86_irq.c`, on top of the two controllers that they program.

* `irqInit`, `irqSetMask`, `irqEnable`, `irqDisable`, `irqEnd`: the functions;
* `Sound`: the controllers have the mask of the kernel, and the lines in service are those whose
  handlers are at work;
* `handlers_of_run`: that holds whatever interrupts come, and no assertion fails when a handler ends;
* `accepts_iff_of_run`: which interrupts can come.
-/

namespace GeekOS.Cpu

/-- `FIRST_IRQ`. -/
def firstIrq : ℤ := 32

/-- `NUM_IRQS`. -/
def numIrqs : ℤ := 16

/-- `VALID_IRQ`. -/
def ValidIrq (irq : ℤ) : Prop := 0 ≤ irq ∧ irq < numIrqs

instance (irq : ℤ) : Decidable (ValidIrq irq) := inferInstanceAs (Decidable (_ ∧ _))

namespace Irq

open I8259 TransitionSystem

/-- `ICW1`. -/
def icw1 : BitVec 8 := 0x11

/-- `ICW2_MASTER`. -/
def icw2Master : BitVec 8 := 0x20

/-- `ICW2_SLAVE`. -/
def icw2Slave : BitVec 8 := 0x28

/-- `ICW3_MASTER`. -/
def icw3Master : BitVec 8 := 0x04

/-- `ICW3_SLAVE`. -/
def icw3Slave : BitVec 8 := 0x02

/-- `ICW4`. -/
def icw4 : BitVec 8 := 0x01

/-- `MASTER`. -/
def masterPart (mask : BitVec 16) : BitVec 8 := (mask &&& 0xff).setWidth 8

/-- `SLAVE`. -/
def slavePart (mask : BitVec 16) : BitVec 8 := ((mask >>> 8) &&& 0xff).setWidth 8

/-- What can go wrong. -/
inductive Fault
  /-- A `KASSERT` has failed. -/
  | assertion
  deriving DecidableEq, Repr

/-- The controllers and the kernel. -/
structure State where
  chips : Pair
  sIrqmask : BitVec 16
  /-- The numbers in the contexts of the handlers that are at work, the innermost first. -/
  intNums : List ℤ
  deriving DecidableEq, Repr

namespace State

variable (s : State)

/-- `ioport_outb`. -/
def outb (port : BitVec 16) (v : BitVec 8) : State := { s with chips := s.chips.write port v }

/-- `irq_init`. -/
def irqInit : State :=
  let s := (s.outb 0x20 icw1).outb 0xa0 icw1
  let s := (s.outb 0x21 icw2Master).outb 0xa1 icw2Slave
  let s := (s.outb 0x21 icw3Master).outb 0xa1 icw3Slave
  let s := (s.outb 0x21 icw4).outb 0xa1 icw4
  let s := (s.outb 0xa1 0xff).outb 0x21 0xfb
  { s with sIrqmask := 0xfffb }

/-- `irq_set_mask`. -/
def irqSetMask (mask : BitVec 16) : State :=
  let s₁ := if masterPart mask ≠ masterPart s.sIrqmask then s.outb 0x21 (masterPart mask) else s
  let s₂ := if slavePart mask ≠ slavePart s₁.sIrqmask then s₁.outb 0xa1 (slavePart mask) else s₁
  { s₂ with sIrqmask := mask }

/-- `MODIFY_IRQ_MASK`. -/
def modifyIrqMask (irq : ℤ) (update : BitVec 16 → BitVec 16) : Except Fault State :=
  if ValidIrq irq then .ok (s.irqSetMask (update s.sIrqmask)) else .error .assertion

/-- `irq_enable`. -/
def irqEnable (irq : ℤ) : Except Fault State :=
  s.modifyIrqMask irq fun mask => mask &&& ~~~BitVec.twoPow 16 irq.toNat

/-- `irq_disable`. -/
def irqDisable (irq : ℤ) : Except Fault State :=
  s.modifyIrqMask irq fun mask => mask ||| BitVec.twoPow 16 irq.toNat

/-- `irq_end`, with the interrupt number of the context. -/
def irqEnd (intNum : ℤ) : Except Fault State :=
  let irq := intNum - firstIrq
  let command : BitVec 8 := 0x60 ||| (BitVec.ofInt 8 irq &&& 0x7)
  if ValidIrq irq then
    if irq < 8 then .ok (s.outb 0x20 command)
    else .ok ((s.outb 0xa0 command).outb 0x20 0x62)
  else .error .assertion

end State

/-- What happens. -/
inductive Event
  | setMask (mask : BitVec 16)
  | enable (irq : ℤ)
  | disable (irq : ℤ)
  /-- An interrupt comes, and its handler is called. -/
  | interrupt (irq : ℕ)
  /-- The innermost handler calls `irq_end` with its context. -/
  | finish
  deriving DecidableEq, Repr

namespace State

/-- An interrupt comes only if the controllers let it through, and a handler ends only if one is at
work. -/
def Enabled (s : State) : Event → Prop
  | .interrupt irq => irq < 16 ∧ s.chips.Accepts irq
  | .finish => s.intNums ≠ []
  | _ => True

instance (s : State) (e : Event) : Decidable (s.Enabled e) := by
  cases e <;> unfold Enabled <;> infer_instance

/-- One step. -/
def exec (s : State) : Event → Except Fault State
  | .setMask mask => .ok (s.irqSetMask mask)
  | .enable irq => s.irqEnable irq
  | .disable irq => s.irqDisable irq
  | .interrupt irq =>
      .ok { s with
        chips := s.chips.accept irq
        intNums := (s.chips.vector irq).toNat :: s.intNums }
  | .finish =>
      match s.intNums with
      | [] => .ok s
      | intNum :: intNums => irqEnd { s with intNums } intNum

/-- The steps. -/
abbrev Step := stepOf Enabled exec

end State

/-- The line of the first controller that an interrupt comes through. -/
def lineOf (intNum : ℤ) : ℕ := if intNum < firstIrq + 8 then (intNum - firstIrq).toNat else 2

/-- The lines that are enabled after an event. -/
def enabledAfter (enabled : ℕ → Bool) : Event → ℕ → Bool
  | .setMask mask => fun i => !mask.getLsbD i
  | .enable irq => Function.update enabled irq.toNat true
  | .disable irq => Function.update enabled irq.toNat false
  | _ => enabled

/-- The lines that are enabled after `irq_init` and some events. -/
def enabledBy (es : List Event) : ℕ → Bool := es.foldl enabledAfter fun i => decide (i = 2)

namespace State

/-- The invariant. -/
structure Sound (s : State) (enabled : ℕ → Bool) : Prop where
  master : s.chips.master.phase = .ready ∧ s.chips.master.offset = icw2Master ∧
    s.chips.master.wiring = icw3Master
  slave : s.chips.slave.phase = .ready ∧ s.chips.slave.offset = icw2Slave ∧
    s.chips.slave.wiring = icw3Slave
  masterMask : s.chips.master.mask = masterPart s.sIrqmask
  slaveMask : s.chips.slave.mask = slavePart s.sIrqmask
  enabled : ∀ i < 16, s.sIrqmask.getLsbD i = !enabled i
  /-- Which handlers are at work. -/
  handlers : ∀ n ∈ s.intNums, ∃ irq : ℕ, irq < 16 ∧ irq ≠ 2 ∧ n = firstIrq + irq
  /-- A handler is interrupted by such of a higher priority. -/
  nested : s.intNums.Pairwise fun inner outer => lineOf inner < lineOf outer
  masterService : ∀ i < 8,
    s.chips.master.inService.getLsbD i = true ↔ ∃ n ∈ s.intNums, lineOf n = i
  slaveService : ∀ i < 8,
    s.chips.slave.inService.getLsbD i = true ↔ firstIrq + 8 + (i : ℤ) ∈ s.intNums

variable {s s' : State} {enabled : ℕ → Bool} {mask : BitVec 16} {irq : ℤ}

/-- The controllers after their initialisation, whatever they were before. -/
theorem irqInit_eq (s : State) :
    s.irqInit =
      { s with
        chips :=
          { master := ⟨.ready, icw1, icw2Master, icw3Master, icw4, 0xfb, 0⟩
            slave := ⟨.ready, icw1, icw2Slave, icw3Slave, icw4, 0xff, 0⟩ }
        sIrqmask := 0xfffb } := by
  simp [irqInit, outb, Pair.write, Chip.command, Chip.data, Chip.afterIcw3, icw1, icw2Master,
    icw2Slave, icw3Master, icw3Slave, icw4]

theorem sound_irqInit (h : s.intNums = []) : s.irqInit.Sound fun i => decide (i = 2) := by
  rw [irqInit_eq, h]
  refine ⟨⟨rfl, rfl, rfl⟩, ⟨rfl, rfl, rfl⟩, ?_, ?_, ?_, ?_, .nil, ?_, ?_⟩
  · show (0xfb : BitVec 8) = masterPart 0xfffb
    decide
  · show (0xff : BitVec 8) = slavePart 0xfffb
    decide
  · show ∀ i < 16, (0xfffb : BitVec 16).getLsbD i = !decide (i = 2)
    decide
  · intro n hn
    cases hn
  · intro i _
    simp
  · intro i _
    simp

/-- A mask goes to the controllers, byte by byte. -/
theorem Sound.irqSetMask_eq (hs : s.Sound enabled) (mask : BitVec 16) :
    s.irqSetMask mask =
      { s with
        chips :=
          { master := { s.chips.master with mask := masterPart mask }
            slave := { s.chips.slave with mask := slavePart mask } }
        sIrqmask := mask } := by
  have hfirst : (if masterPart mask ≠ masterPart s.sIrqmask then s.outb 0x21 (masterPart mask)
      else s) = { s with chips := { s.chips with
        master := { s.chips.master with mask := masterPart mask } } } := by
    split
    · rw [← Chip.data_ready hs.master.1]
      rfl
    next hsame => rw [not_not.mp hsame, ← hs.masterMask]
  rw [irqSetMask, hfirst]
  dsimp only
  split
  · rw [← Chip.data_ready hs.slave.1]
    rfl
  next hsame => rw [not_not.mp hsame, ← hs.slaveMask]

theorem Sound.irqSetMask (hs : s.Sound enabled) (mask : BitVec 16) :
    (s.irqSetMask mask).Sound fun i => !mask.getLsbD i := by
  rw [hs.irqSetMask_eq mask]
  exact
    { master := hs.master
      slave := hs.slave
      masterMask := rfl
      slaveMask := rfl
      enabled := fun i _ => (Bool.not_not _).symm
      handlers := hs.handlers
      nested := hs.nested
      masterService := hs.masterService
      slaveService := hs.slaveService }

theorem Sound.congr {enabled' : ℕ → Bool} (hs : s.Sound enabled)
    (h : ∀ i < 16, enabled' i = enabled i) : s.Sound enabled' :=
  { hs with enabled := fun i hi => by rw [h i hi]; exact hs.enabled i hi }

/-- One bit of the mask is changed. -/
theorem Sound.modifyIrqMask {update : BitVec 16 → BitVec 16} {on : Bool} (hs : s.Sound enabled)
    (hupdate : 0 ≤ irq → irq < 16 → ∀ mask, ∀ i < 16,
      (update mask).getLsbD i = if i = irq.toNat then !on else mask.getLsbD i)
    (h : s.modifyIrqMask irq update = .ok s') :
    s'.Sound (Function.update enabled irq.toNat on) := by
  rw [State.modifyIrqMask] at h
  split at h
  next hvalid =>
    cases h
    refine (hs.irqSetMask _).congr fun i hi => ?_
    rw [hupdate hvalid.1 hvalid.2 _ i hi]
    by_cases hirq : i = irq.toNat
    · rw [if_pos hirq, hirq, Function.update_self, Bool.not_not]
    · rw [if_neg hirq, Function.update_of_ne hirq, hs.enabled i hi, Bool.not_not]
  next => cases h

theorem Sound.irqEnable (hs : s.Sound enabled) (h : s.irqEnable irq = .ok s') :
    s'.Sound (Function.update enabled irq.toNat true) := by
  refine hs.modifyIrqMask (fun hlo hhi mask i hi => ?_) h
  rw [BitVec.getLsbD_and, BitVec.getLsbD_not, BitVec.getLsbD_twoPow]
  by_cases hirq : i = irq.toNat
  · simp [hirq]
  · simp [hirq, Ne.symm hirq, hi]

theorem Sound.irqDisable (hs : s.Sound enabled) (h : s.irqDisable irq = .ok s') :
    s'.Sound (Function.update enabled irq.toNat false) := by
  refine hs.modifyIrqMask (fun hlo hhi mask i hi => ?_) h
  rw [BitVec.getLsbD_or, BitVec.getLsbD_twoPow]
  by_cases hirq : i = irq.toNat
  · simp [hirq]
    omega
  · simp [hirq, Ne.symm hirq]

theorem lineOf_lt (hs : s.Sound enabled) {n : ℤ} (hn : n ∈ s.intNums) : lineOf n < 8 := by
  obtain ⟨irq, hirq, -, rfl⟩ := hs.handlers n hn
  unfold lineOf firstIrq
  split <;> omega

theorem exists_lineOf_cons {n : ℤ} {rest : List ℤ} {i : ℕ} :
    (∃ m ∈ n :: rest, lineOf m = i) ↔ lineOf n = i ∨ ∃ m ∈ rest, lineOf m = i := by
  simp

/-- A line is let through whose priority is higher than those of the handlers at work. -/
theorem Sound.not_inService_iff (hs : s.Sound enabled) {i : ℕ} (hi : i < 8) :
    (∀ j ≤ i, s.chips.master.inService.getLsbD j = false) ↔ ∀ n ∈ s.intNums, i < lineOf n := by
  constructor
  · intro hclear n hn
    by_contra hle
    have hbit := (hs.masterService (lineOf n) (lineOf_lt hs hn)).mpr ⟨n, hn, rfl⟩
    rw [hclear _ (Nat.not_lt.mp hle)] at hbit
    cases hbit
  · intro hlow j hj
    rw [Bool.eq_false_iff]
    intro hbit
    obtain ⟨n, hn, hline⟩ := (hs.masterService j (by omega)).mp hbit
    have hlt := hlow n hn
    omega

theorem Sound.masterEnabled (hs : s.Sound enabled) {i : ℕ} (hi : i < 8) :
    s.chips.master.mask.getLsbD i = false ↔ enabled i = true := by
  have hpart : (masterPart s.sIrqmask).getLsbD i = s.sIrqmask.getLsbD i := by
    unfold masterPart
    interval_cases i <;> simp
  rw [hs.masterMask, hpart, hs.enabled i (by omega)]
  simp

theorem Sound.slaveEnabled (hs : s.Sound enabled) {i : ℕ} (hi : i < 8) :
    s.chips.slave.mask.getLsbD i = false ↔ enabled (8 + i) = true := by
  have hpart : (slavePart s.sIrqmask).getLsbD i = s.sIrqmask.getLsbD (8 + i) := by
    unfold slavePart
    interval_cases i <;> simp
  rw [hs.slaveMask, hpart, hs.enabled (8 + i) (by omega)]
  simp

/-- The numbers that the controllers tell the processor. -/
theorem Sound.vector (hs : s.Sound enabled) {irq : ℕ} (hirq : irq < 16) :
    (s.chips.vector irq).toNat = 32 + irq := by
  rw [Pair.vector]
  split
  · rw [hs.master.2.1]
    unfold icw2Master
    bv_omega
  · rw [hs.slave.2.1]
    unfold icw2Slave
    bv_omega

theorem Sound.slaveLine (hs : s.Sound enabled) : s.chips.slaveLine = 2 := by
  rw [Pair.slaveLine, hs.slave.2.2]
  rfl

/-- An interrupt comes. -/
theorem Sound.interrupt {irq : ℕ} (hs : s.Sound enabled) (hirq : irq < 16)
    (h : s.chips.Accepts irq) :
    State.Sound
      { s with
        chips := s.chips.accept irq
        intNums := (s.chips.vector irq).toNat :: s.intNums } enabled := by
  have hvector : ((s.chips.vector irq).toNat : ℤ) = firstIrq + irq := by
    rw [hs.vector hirq]
    rfl
  rw [Pair.Accepts] at h
  by_cases hmaster : irq < 8
  · rw [if_pos hmaster, hs.slaveLine] at h
    obtain ⟨hne, -, -, -, hclear⟩ := h
    have hlow := (hs.not_inService_iff hmaster).mp hclear
    have hline : lineOf (firstIrq + irq) = irq := by
      unfold lineOf firstIrq
      rw [if_pos (by omega)]
      omega
    rw [hvector, Pair.accept, if_pos hmaster]
    refine ⟨hs.master, hs.slave, hs.masterMask, hs.slaveMask, hs.enabled, ?_, ?_, ?_, ?_⟩
    · intro n hn
      rcases List.mem_cons.mp hn with rfl | hn
      · exact ⟨irq, hirq, hne, rfl⟩
      · exact hs.handlers n hn
    · refine List.pairwise_cons.mpr ⟨fun n hn => ?_, hs.nested⟩
      rw [hline]
      exact hlow n hn
    · intro i hi
      show (s.chips.master.accept irq).inService.getLsbD i = true ↔
        ∃ m ∈ (firstIrq + irq) :: s.intNums, lineOf m = i
      rw [Chip.getLsbD_accept hmaster, Bool.or_eq_true, hs.masterService i hi, decide_eq_true_eq,
        exists_lineOf_cons, hline, or_comm]
    · intro i hi
      rw [List.mem_cons]
      have hother : firstIrq + 8 + (i : ℤ) ≠ firstIrq + irq := by omega
      simp only [hother, false_or]
      exact hs.slaveService i hi
  -- a line of the second controller, which comes as line 2 of the first one
  · rw [if_neg hmaster, hs.slaveLine] at h
    obtain ⟨⟨-, hlt, -, hslave⟩, -, -, -, -, hclear⟩ := h
    have hlow := (hs.not_inService_iff (show 2 < 8 by decide)).mp hclear
    have hline : lineOf (firstIrq + irq) = 2 := by
      unfold lineOf firstIrq
      rw [if_neg (by omega)]
    rw [hvector, Pair.accept, if_neg hmaster, hs.slaveLine]
    refine ⟨hs.master, hs.slave, hs.masterMask, hs.slaveMask, hs.enabled, ?_, ?_, ?_, ?_⟩
    · intro n hn
      rcases List.mem_cons.mp hn with rfl | hn
      · exact ⟨irq, hirq, by omega, rfl⟩
      · exact hs.handlers n hn
    · refine List.pairwise_cons.mpr ⟨fun n hn => ?_, hs.nested⟩
      rw [hline]
      exact hlow n hn
    · intro i hi
      show (s.chips.master.accept 2).inService.getLsbD i = true ↔
        ∃ m ∈ (firstIrq + irq) :: s.intNums, lineOf m = i
      rw [Chip.getLsbD_accept (by decide), Bool.or_eq_true, hs.masterService i hi,
        decide_eq_true_eq, exists_lineOf_cons, hline, or_comm]
    · intro i hi
      show (s.chips.slave.accept (irq - 8)).inService.getLsbD i = true ↔ _
      rw [Chip.getLsbD_accept hlt, Bool.or_eq_true, hs.slaveService i hi, decide_eq_true_eq,
        List.mem_cons, or_comm]
      refine or_congr_left ?_
      omega

/-- The innermost handler ends, and its assertion holds. -/
theorem Sound.finish {n : ℤ} {rest : List ℤ} (hs : s.Sound enabled) (h : s.intNums = n :: rest) :
    ∃ s', irqEnd { s with intNums := rest } n = .ok s' ∧ s'.Sound enabled := by
  obtain ⟨irq, hirq, hne, hn⟩ := hs.handlers n (by rw [h]; exact List.mem_cons_self)
  have hnested := hs.nested
  rw [h, List.pairwise_cons] at hnested
  obtain ⟨hinner, hrest⟩ := hnested
  have hhandlers : ∀ m ∈ rest, ∃ irq : ℕ, irq < 16 ∧ irq ≠ 2 ∧ m = firstIrq + irq :=
    fun m hm => hs.handlers m (by rw [h]; exact List.mem_cons_of_mem _ hm)
  have hnum : n - firstIrq = irq := by omega
  have hvalid : ValidIrq irq := ⟨Int.natCast_nonneg irq, by unfold numIrqs; omega⟩
  -- the command names the line on its own controller
  have hcommand : (0x60 ||| (BitVec.ofInt 8 irq &&& 0x7) : BitVec 8) =
      0x60 ||| BitVec.ofNat 8 (irq % 8) := by
    clear hn hnum hvalid
    interval_cases irq <;> rfl
  -- the line goes out of service, and no other one
  have hservice : ∀ i < 8, (s.chips.master.command (0x60 ||| BitVec.ofNat 8 (lineOf n))).inService.getLsbD
      i = true ↔ ∃ m ∈ rest, lineOf m = i := by
    intro i hi
    have hline : lineOf n < 8 := lineOf_lt hs (by rw [h]; exact List.mem_cons_self)
    rw [Chip.getLsbD_command_specific hline hi, Bool.and_eq_true, hs.masterService i hi, h,
      exists_lineOf_cons, Bool.not_eq_true', decide_eq_false_iff_not]
    constructor
    · rintro ⟨heq | hm, hother⟩
      · exact absurd heq hother
      · exact hm
    · rintro ⟨m, hm, rfl⟩
      exact ⟨.inr ⟨m, hm, rfl⟩, (hinner m hm).ne⟩
  rw [irqEnd, hnum, hcommand, if_pos hvalid]
  by_cases hmaster : irq < 8
  · have hline : lineOf n = irq := by
      unfold lineOf firstIrq at *
      rw [if_pos (by omega)]
      omega
    rw [hline] at hservice
    rw [if_pos (by omega), Nat.mod_eq_of_lt hmaster]
    have hphase := Chip.command_specific (c := s.chips.master) hmaster
    refine ⟨_, rfl, ?_, hs.slave, ?_, hs.slaveMask, hs.enabled, hhandlers, hrest, hservice, ?_⟩
    · show (s.chips.master.command _).phase = _ ∧ (s.chips.master.command _).offset = _ ∧
        (s.chips.master.command _).wiring = _
      rw [hphase]
      exact hs.master
    · show (s.chips.master.command _).mask = _
      rw [hphase]
      exact hs.masterMask
    · intro i hi
      have hslave := hs.slaveService i hi
      rw [h, List.mem_cons] at hslave
      refine hslave.trans (or_iff_right fun heq => ?_)
      unfold firstIrq at *
      omega
  · have hline : lineOf n = 2 := by
      unfold lineOf firstIrq at *
      rw [if_neg (by omega)]
    have hlt : irq % 8 < 8 := Nat.mod_lt _ (by decide)
    rw [hline] at hservice
    rw [if_neg (by omega)]
    have hphase := Chip.command_specific (c := s.chips.master) (show 2 < 8 by decide)
    have hphase' := Chip.command_specific (c := s.chips.slave) hlt
    refine ⟨_, rfl, ?_, ?_, ?_, ?_, hs.enabled, hhandlers, hrest, hservice, ?_⟩
    · show (s.chips.master.command (0x60 ||| BitVec.ofNat 8 2)).phase = _ ∧
        (s.chips.master.command (0x60 ||| BitVec.ofNat 8 2)).offset = _ ∧
        (s.chips.master.command (0x60 ||| BitVec.ofNat 8 2)).wiring = _
      rw [hphase]
      exact hs.master
    · show (s.chips.slave.command _).phase = _ ∧ (s.chips.slave.command _).offset = _ ∧
        (s.chips.slave.command _).wiring = _
      rw [hphase']
      exact hs.slave
    · show (s.chips.master.command (0x60 ||| BitVec.ofNat 8 2)).mask = _
      rw [hphase]
      exact hs.masterMask
    · show (s.chips.slave.command _).mask = _
      rw [hphase']
      exact hs.slaveMask
    · intro i hi
      show (s.chips.slave.command (0x60 ||| BitVec.ofNat 8 (irq % 8))).inService.getLsbD i = true ↔
        firstIrq + 8 + (i : ℤ) ∈ rest
      rw [Chip.getLsbD_command_specific hlt hi, Bool.and_eq_true, hs.slaveService i hi, h,
        List.mem_cons, Bool.not_eq_true', decide_eq_false_iff_not]
      constructor
      · rintro ⟨heq | hm, hother⟩
        · omega
        · exact hm
      · intro hm
        refine ⟨.inr hm, fun heq => ?_⟩
        -- at most one line of the second controller is in service
        have hlow := hinner _ hm
        rw [hline] at hlow
        unfold lineOf at hlow
        rw [if_neg (by omega)] at hlow
        omega

/-- Every step keeps it. -/
theorem Sound.step {e : Event} (hs : s.Sound enabled) (h : Step s e s') :
    s'.Sound (enabledAfter enabled e) := by
  obtain ⟨hen, hexec⟩ := h
  cases e with
  | setMask mask =>
    cases hexec
    exact hs.irqSetMask mask
  | enable irq => exact hs.irqEnable hexec
  | disable irq => exact hs.irqDisable hexec
  | interrupt irq =>
    cases hexec
    exact hs.interrupt hen.1 hen.2
  | finish =>
    cases hnums : s.intNums with
    | nil => exact absurd hnums hen
    | cons n rest =>
      rw [exec, hnums] at hexec
      have hexec : irqEnd { s with intNums := rest } n = .ok s' := hexec
      obtain ⟨s'', heq, hsound⟩ := hs.finish hnums
      rw [heq] at hexec
      cases hexec
      exact hsound

variable {s₀ : State} {tr : List (State × Event)}

theorem Sound.of_run (h₀ : s₀.intNums = []) (h : Run Step s₀.irqInit tr s) :
    s.Sound (enabledBy (tr.map Prod.snd)) := by
  induction h with
  | nil => exact sound_irqInit h₀
  | snoc _ hstep ih =>
    rw [enabledBy, List.map_append, List.foldl_append]
    exact ih.step hstep

/-- Whatever interrupts come, and whatever lines are enabled and disabled, the controllers have the
mask of the kernel, the lines in service are those whose handlers are at work, and no assertion fails
when the innermost of them ends. -/
theorem handlers_of_run (h₀ : s₀.intNums = []) (h : Run Step s₀.irqInit tr s) :
    s.Sound (enabledBy (tr.map Prod.snd)) ∧ ∃ s', s.exec .finish = .ok s' := by
  have hs := Sound.of_run h₀ h
  refine ⟨hs, ?_⟩
  cases hnums : s.intNums with
  | nil => exact ⟨s, by rw [exec, hnums]⟩
  | cons n rest =>
    obtain ⟨s', heq, -⟩ := hs.finish hnums
    exact ⟨s', by rw [exec, hnums]; exact heq⟩

/-- Controllers in some state, before `irq_init`. -/
def poweredOn : State where
  chips := ⟨⟨.icw3, 0, 0, 0, 0, 0, 0xff⟩, ⟨.ready, 0, 0, 0, 0, 0, 1⟩⟩
  sIrqmask := 0
  intNums := []

/-- The handler of one line is interrupted by that of another one, which ends. -/
def nestedInterrupts : List Event :=
  [.enable 0, .enable 9, .disable 9, .enable 9, .interrupt 9, .interrupt 0, .finish]

theorem handlers_nestedInterrupts :
    (after Enabled exec poweredOn.irqInit nestedInterrupts).intNums = [41] ∧
      (after Enabled exec poweredOn.irqInit nestedInterrupts).chips.slave.inService = 2 ∧
      ∃ s', (after Enabled exec poweredOn.irqInit nestedInterrupts).exec .finish = .ok s' := by
  have hruns : (runs Enabled exec poweredOn.irqInit nestedInterrupts).isSome := by
    decide +kernel
  obtain ⟨tr, hr⟩ := run_after hruns
  exact ⟨by decide +kernel, by decide +kernel, (handlers_of_run rfl hr).2⟩

/-- An interrupt can come just when its line is enabled, with the line of the second controller if it
is one of that, and its priority is higher than those of the handlers at work. -/
theorem accepts_iff_of_run (h₀ : s₀.intNums = []) (h : Run Step s₀.irqInit tr s) {irq : ℕ}
    (hirq : irq < 16) :
    s.chips.Accepts irq ↔
      irq ≠ 2 ∧ enabledBy (tr.map Prod.snd) irq = true ∧
        (8 ≤ irq → enabledBy (tr.map Prod.snd) 2 = true) ∧
        ∀ n ∈ s.intNums, lineOf (firstIrq + irq) < lineOf n := by
  have hs := Sound.of_run h₀ h
  generalize enabledBy (tr.map Prod.snd) = enabled at hs ⊢
  by_cases hmaster : irq < 8
  · have hline : lineOf (firstIrq + irq) = irq := by
      unfold lineOf firstIrq
      rw [if_pos (by omega)]
      omega
    rw [Pair.Accepts, if_pos hmaster, hs.slaveLine, hline]
    refine and_congr_right fun _ => ?_
    constructor
    · rintro ⟨-, -, hmask, hclear⟩
      refine ⟨?_, fun hle => absurd hmaster (Nat.not_lt.mpr hle), ?_⟩
      · exact (hs.masterEnabled hmaster).mp hmask
      · exact (hs.not_inService_iff hmaster).mp hclear
    · rintro ⟨hen, -, hlow⟩
      exact ⟨hs.master.1, hmaster, (hs.masterEnabled hmaster).mpr hen,
        (hs.not_inService_iff hmaster).mpr hlow⟩
  · have hline : lineOf (firstIrq + irq) = 2 := by
      unfold lineOf firstIrq
      rw [if_neg (by omega)]
    have hle : 8 ≤ irq := Nat.not_lt.mp hmaster
    have hlt : irq - 8 < 8 := by omega
    have hup : 8 + (irq - 8) = irq := by omega
    have hsecond := hs.slaveEnabled hlt
    rw [hup] at hsecond
    rw [Pair.Accepts, if_neg hmaster, hs.slaveLine, hline]
    constructor
    · rintro ⟨⟨-, -, hmask, -⟩, -, -, -, hmask', hclear⟩
      exact ⟨by omega, hsecond.mp hmask, fun _ => (hs.masterEnabled (by decide)).mp hmask',
        (hs.not_inService_iff (by decide)).mp hclear⟩
    · rintro ⟨-, hen, hen', hlow⟩
      refine ⟨⟨hs.slave.1, hlt, hsecond.mpr hen, fun j hj => ?_⟩, ?_, hs.master.1, by decide,
        (hs.masterEnabled (by decide)).mpr (hen' hle), (hs.not_inService_iff (by decide)).mpr hlow⟩
      · -- no line of the second controller is in service
        rw [Bool.eq_false_iff]
        intro hbit
        have hmem := (hs.slaveService j (by omega)).mp hbit
        have hpos := hlow _ hmem
        unfold lineOf at hpos
        rw [if_neg (by omega)] at hpos
        omega
      · rw [hs.master.2.2]
        decide

theorem accepts_nestedInterrupts :
    (after Enabled exec poweredOn.irqInit nestedInterrupts).chips.Accepts 0 ∧
      ¬(after Enabled exec poweredOn.irqInit nestedInterrupts).chips.Accepts 9 := by
  have hruns : (runs Enabled exec poweredOn.irqInit nestedInterrupts).isSome := by
    decide +kernel
  obtain ⟨⟨tr, s⟩, hr⟩ := Option.isSome_iff_exists.mp hruns
  have hafter : after Enabled exec poweredOn.irqInit nestedInterrupts = s := by
    simp [after, hr]
  have hnums : s.intNums = [41] := by
    rw [← hafter]
    decide +kernel
  rw [hafter, accepts_iff_of_run rfl (run_of_runs hr) (show 0 < 16 by decide),
    accepts_iff_of_run rfl (run_of_runs hr) (show 9 < 16 by decide), map_snd_of_runs hr, hnums]
  decide +kernel

end State

end Irq

end GeekOS.Cpu
