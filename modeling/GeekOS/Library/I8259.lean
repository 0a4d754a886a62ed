import Mathlib.Data.Nat.Basic
import Mathlib.Tactic.Common
import Mathlib.Tactic.IntervalCases

/-!
# The interrupt controller 8259A

A pair of these chips as they stand in a PC: eight lines each, where the second chip is a line of the
first one. A program sets them up through two ports each, sets their masks, and tells them where the
handling of an interrupt ends; interrupts come in the order of their priorities.

* `Chip.command`, `Chip.data`: what is written to the two ports of a chip;
* `Chip.Accepts`: a line is not masked, and nothing of the same or a higher priority is in service;
* `Pair.write`, `Pair.Accepts`, `Pair.accept`: the two chips together;
* `Chip.command_specific`: a specific end of interrupt takes one line out of service.
-/

namespace I8259

/-- What a chip expects at its second port. -/
inductive Phase
  | icw2 | icw3 | icw4 | ready
  deriving DecidableEq, Repr

/-- A chip. -/
structure Chip where
  phase : Phase
  /-- The first word of the initialisation. -/
  icw1 : BitVec 8
  /-- The vector of the first line. -/
  offset : BitVec 8
  /-- The lines with another chip, or the line that this one is. -/
  wiring : BitVec 8
  mode : BitVec 8
  mask : BitVec 8
  inService : BitVec 8
  deriving DecidableEq, Repr

namespace Chip

variable (c : Chip)

/-- A write to the first port: the start of an initialisation, or the end of an interrupt, which may
name its line. -/
def command (v : BitVec 8) : Chip :=
  if v.getLsbD 4 then { c with phase := .icw2, icw1 := v, mask := 0, inService := 0 }
  else if v.getLsbD 3 then c
  else if v >>> 5 = 3 then
    { c with inService := c.inService &&& ~~~BitVec.twoPow 8 (v &&& 7).toNat }
  else if v >>> 5 = 1 then
    -- the line of the highest priority
    { c with inService := c.inService &&& (c.inService - 1) }
  else c

/-- What follows the third word. -/
def afterIcw3 : Phase := if c.icw1.getLsbD 0 then .icw4 else .ready

/-- A write to the second port: the words of the initialisation, and then the mask. -/
def data (v : BitVec 8) : Chip :=
  match c.phase with
  | .icw2 =>
      { c with offset := v &&& 0xf8, phase := if c.icw1.getLsbD 1 then c.afterIcw3 else .icw3 }
  | .icw3 => { c with wiring := v, phase := c.afterIcw3 }
  | .icw4 => { c with mode := v, phase := .ready }
  | .ready => { c with mask := v }

/-- The chip lets a line through. -/
def Accepts (i : ℕ) : Prop :=
  c.phase = .ready ∧ i < 8 ∧ c.mask.getLsbD i = false ∧ ∀ j ≤ i, c.inService.getLsbD j = false

instance (i : ℕ) : Decidable (c.Accepts i) :=
  inferInstanceAs (Decidable (_ ∧ _ ∧ _ ∧ _))

/-- A line goes into service. -/
def accept (i : ℕ) : Chip := { c with inService := c.inService ||| BitVec.twoPow 8 i }

variable {c} {v : BitVec 8} {i j : ℕ}

/-- When the chip has been set up, its mask is written. -/
theorem data_ready (h : c.phase = .ready) (v : BitVec 8) : c.data v = { c with mask := v } := by
  obtain ⟨phase, icw1, offset, wiring, mode, mask, inService⟩ := c
  obtain rfl : phase = .ready := h
  rfl

theorem getLsbD_accept (hi : i < 8) :
    (c.accept i).inService.getLsbD j = (c.inService.getLsbD j || decide (i = j)) := by
  show (c.inService ||| BitVec.twoPow 8 i).getLsbD j = _
  rw [BitVec.getLsbD_or, BitVec.getLsbD_twoPow, decide_eq_true hi, Bool.true_and]

/-- A specific end of interrupt takes one line out of service. -/
theorem command_specific (hi : i < 8) :
    c.command (0x60 ||| BitVec.ofNat 8 i) =
      { c with inService := c.inService &&& ~~~BitVec.twoPow 8 i } := by
  interval_cases i <;> rfl

theorem getLsbD_command_specific (hi : i < 8) (hj : j < 8) :
    (c.command (0x60 ||| BitVec.ofNat 8 i)).inService.getLsbD j =
      (c.inService.getLsbD j && !decide (i = j)) := by
  rw [command_specific hi, BitVec.getLsbD_and, BitVec.getLsbD_not, BitVec.getLsbD_twoPow,
    decide_eq_true hi, decide_eq_true hj, Bool.true_and, Bool.true_and]

end Chip

/-- The two chips. -/
structure Pair where
  master : Chip
  slave : Chip
  deriving DecidableEq, Repr

namespace Pair

variable (p : Pair)

/-- A byte is written to a port. -/
def write (port : BitVec 16) (v : BitVec 8) : Pair :=
  if port = 0x20 then { p with master := p.master.command v }
  else if port = 0x21 then { p with master := p.master.data v }
  else if port = 0xa0 then { p with slave := p.slave.command v }
  else if port = 0xa1 then { p with slave := p.slave.data v }
  else p

/-- The line of the first chip that the second one is. -/
def slaveLine : ℕ := (p.slave.wiring &&& 7).toNat

/-- A line comes through to the processor. -/
def Accepts (irq : ℕ) : Prop :=
  if irq < 8 then irq ≠ p.slaveLine ∧ p.master.Accepts irq
  else p.slave.Accepts (irq - 8) ∧ p.master.wiring.getLsbD p.slaveLine = true ∧
    p.master.Accepts p.slaveLine

instance (irq : ℕ) : Decidable (p.Accepts irq) := by
  unfold Accepts
  infer_instance

/-- It goes into service. -/
def accept (irq : ℕ) : Pair :=
  if irq < 8 then { p with master := p.master.accept irq }
  else { master := p.master.accept p.slaveLine, slave := p.slave.accept (irq - 8) }

/-- The vector that the processor is told. -/
def vector (irq : ℕ) : BitVec 8 :=
  if irq < 8 then p.master.offset + BitVec.ofNat 8 irq
  else p.slave.offset + BitVec.ofNat 8 (irq - 8)

end Pair

end I8259
