import GeekOS.Library.Words

/-!
# Instructions of a 32-bit processor

The registers and the memory that some instructions of the IA-32 work with, as far as code that
moves registers to a stack and back needs them: the operands, the stack, and jumps forwards. What a
function that is called does comes from outside.

* `Machine.read`, `Machine.write`, `Machine.push`, `Machine.pop`: operands and the stack;
* `exec`: a list of instructions, of which a jump skips some;
* `RowAt`: words that stand one above the other in memory, `RowAt.storel`: a store into one of them;
* `storeTable`: a table of rows is filled;
* `exec_push`, `exec_pop`: rows of registers are pushed and popped.
-/

namespace X86

/-- The registers of 32 bits. -/
inductive Reg
  | eax | ebx | ecx | edx | esi | edi | ebp | esp
  deriving DecidableEq, Repr

/-- The segment registers. -/
inductive Seg
  | cs | ds | es | fs | gs
  deriving DecidableEq, Repr

/-- What a processor holds. -/
@[ext]
structure Registers where
  reg : Reg → BitVec 32
  seg : Seg → BitVec 16
  eflags : BitVec 32
  eip : BitVec 32

/-- A processor and its memory. -/
@[ext]
structure Machine extends Registers where
  mem : Words.Memory

/-- What an instruction reads or writes. -/
inductive Operand
  | imm (v : BitVec 32)
  | reg (r : Reg)
  | seg (s : Seg)
  /-- At a displacement from a register. -/
  | mem (disp : BitVec 32) (base : Reg)
  /-- At an address. -/
  | abs (a : BitVec 32)
  /-- At a register and four times another one. -/
  | idx (base index : Reg)
  deriving DecidableEq, Repr

/-- Instructions, with functions `F` that they may call. -/
inductive Instr (F : Type)
  | pushl (src : Operand)
  | pushfl
  | popl (dst : Operand)
  | movl (src dst : Operand)
  /-- The lower half of an operand. -/
  | movw (src dst : Operand)
  | addl (v : BitVec 32) (dst : Reg)
  | subl (v : BitVec 32) (dst : Reg)
  | cmpl (v : BitVec 32) (src : Operand)
  /-- Skip some instructions if the last result was zero. -/
  | je (skip : ℕ)
  /-- Call a function, or the one whose address a register has. -/
  | call (f : F ⊕ Reg)
  | iret
  deriving DecidableEq, Repr

/-! ## Words -/

/-- The word at an address. -/
def loadl (m : Words.Memory) (a : ℕ) : BitVec 32 := BitVec.ofNat 32 (Words.load 4 m a)

/-- Store a word. -/
def storel (m : Words.Memory) (a : ℕ) (v : BitVec 32) : Words.Memory := Words.store 4 m a v.toNat

variable {m m' : Words.Memory} {a b i : ℕ} {v w : BitVec 32} {ws xs ys : List (BitVec 32)}

@[simp]
theorem loadl_storel_self : loadl (storel m a v) a = v := by
  have hlt : v.toNat < 256 ^ 4 := v.isLt
  rw [loadl, storel, Words.load_store_self, Nat.mod_eq_of_lt hlt, BitVec.ofNat_toNat,
    BitVec.setWidth_eq]

theorem loadl_storel_of_disjoint (h : b + 4 ≤ a ∨ a + 4 ≤ b) :
    loadl (storel m a v) b = loadl m b := by
  rw [loadl, storel, Words.load_store_of_disjoint h, loadl]

theorem storel_of_disjoint (h : i < a ∨ a + 4 ≤ i) : storel m a v i = m i :=
  Words.store_of_disjoint h

theorem loadl_congr (h : ∀ i, a ≤ i → i < a + 4 → m' i = m i) : loadl m' a = loadl m a := by
  rw [loadl, loadl, Words.load_congr h]

/-- Words one above the other, from an address on. -/
def RowAt (m : Words.Memory) : ℕ → List (BitVec 32) → Prop
  | _, [] => True
  | a, w :: ws => loadl m a = w ∧ RowAt m (a + 4) ws

theorem rowAt_append :
    RowAt m a (xs ++ ys) ↔ RowAt m a xs ∧ RowAt m (a + 4 * xs.length) ys := by
  induction xs generalizing a with
  | nil => simp [RowAt]
  | cons x xs ih =>
    have hshift : a + 4 + 4 * xs.length = a + 4 * (xs.length + 1) := by omega
    rw [List.cons_append, RowAt, ih, RowAt, List.length_cons, hshift, and_assoc]

/-- A row depends on its own bytes only. -/
theorem RowAt.congr (h : RowAt m a ws) (hmem : ∀ i, a ≤ i → i < a + 4 * ws.length → m' i = m i) :
    RowAt m' a ws := by
  induction ws generalizing a with
  | nil => trivial
  | cons w ws ih =>
    rw [List.length_cons] at hmem
    refine ⟨?_, ih h.2 fun i hle hlt => hmem i (by omega) (by omega)⟩
    rw [← h.1]
    exact loadl_congr fun i hle hlt => hmem i hle (by omega)

variable (xs) in
/-- One of the words is stored into. -/
theorem RowAt.storel (h : RowAt m a (xs ++ w :: ys)) (hb : b = a + 4 * xs.length) :
    RowAt (storel m b v) a (xs ++ v :: ys) := by
  obtain ⟨hxs, -, hys⟩ := rowAt_append.mp h
  subst hb
  refine rowAt_append.mpr ⟨hxs.congr ?_, loadl_storel_self, hys.congr ?_⟩
  · exact fun i _ hlt => storel_of_disjoint (.inl hlt)
  · exact fun i hle _ => storel_of_disjoint (.inr hle)

/-- A store outside of the row. -/
theorem RowAt.storel_of_disjoint (h : RowAt m a ws) (hb : b + 4 ≤ a ∨ a + 4 * ws.length ≤ b) :
    RowAt (X86.storel m b v) a ws :=
  h.congr fun i hle hlt => X86.storel_of_disjoint (by omega)

/-- There is always some row of words. -/
theorem exists_rowAt (m : Words.Memory) (a k : ℕ) : ∃ ws, ws.length = k ∧ RowAt m a ws := by
  induction k generalizing a with
  | zero => exact ⟨[], rfl, trivial⟩
  | succ k ih =>
    obtain ⟨ws, hlen, hrow⟩ := ih (a + 4)
    exact ⟨loadl m a :: ws, by rw [List.length_cons, hlen], rfl, hrow⟩

/-- Words are stored one above the other. -/
def storeRow (m : Words.Memory) : ℕ → List (BitVec 32) → Words.Memory
  | _, [] => m
  | a, w :: ws => storeRow (X86.storel m a w) (a + 4) ws

/-- The bytes around them stay as they are. -/
theorem storeRow_of_disjoint (h : i < a ∨ a + 4 * ws.length ≤ i) : storeRow m a ws i = m i := by
  induction ws generalizing m a with
  | nil => rfl
  | cons w ws ih =>
    rw [List.length_cons] at h
    rw [storeRow, ih (by omega)]
    exact X86.storel_of_disjoint (by omega)

theorem storeRow_row : RowAt (storeRow m a ws) a ws := by
  induction ws generalizing m a with
  | nil => trivial
  | cons w ws ih =>
    refine ⟨?_, ih⟩
    have hword : loadl (storeRow (X86.storel m a w) (a + 4) ws) a =
        loadl (X86.storel m a w) a :=
      loadl_congr fun i _ hlt => storeRow_of_disjoint (.inl hlt)
    rw [storeRow, hword]
    exact loadl_storel_self

section Table

variable {f : ℕ → List (BitVec 32)} {n k : ℕ}

/-- A table is filled row by row. -/
def storeTable (m : Words.Memory) (a k n : ℕ) (f : ℕ → List (BitVec 32)) : Words.Memory :=
  (List.range n).foldl (fun m i => storeRow m (a + k * i) (f i)) m

theorem storeTable_succ :
    storeTable m a k (n + 1) f = storeRow (storeTable m a k n f) (a + k * n) (f n) := by
  rw [storeTable, List.range_succ, List.foldl_append]
  rfl

theorem storeTable_of_disjoint (hlen : ∀ i, 4 * (f i).length ≤ k) (h : i < a ∨ a + k * n ≤ i) :
    storeTable m a k n f i = m i := by
  induction n with
  | zero => rfl
  | succ n ih =>
    have hn := hlen n
    rw [Nat.mul_succ] at h
    rw [storeTable_succ, storeRow_of_disjoint (by omega), ih (by omega)]

/-- Each row of the table is there. -/
theorem storeTable_row (hlen : ∀ i, 4 * (f i).length ≤ k) (hi : i < n) :
    RowAt (storeTable m a k n f) (a + k * i) (f i) := by
  induction n with
  | zero => exact absurd hi (Nat.not_lt_zero i)
  | succ n ih =>
    rw [storeTable_succ]
    rcases Nat.lt_succ_iff_lt_or_eq.mp hi with hlt | rfl
    · have hmul : k * i + k ≤ k * n := Nat.mul_le_mul_left k hlt
      have hrow := hlen i
      exact (ih hlt).congr fun j _ hj => storeRow_of_disjoint (.inl (by omega))
    · exact storeRow_row

end Table

/-! ## Flags -/

/-- The carry, parity, adjust, zero, sign and overflow flags. -/
def statusMask : BitVec 32 := 0x8d5

/-- Set the status flags, and leave the other ones. -/
def withStatus (eflags : BitVec 32) (cf pf af zf sf of : Bool) : BitVec 32 :=
  (eflags &&& ~~~statusMask) ||| (BitVec.ofBool cf).setWidth 32 |||
    (BitVec.ofBool pf).setWidth 32 <<< 2 ||| (BitVec.ofBool af).setWidth 32 <<< 4 |||
    (BitVec.ofBool zf).setWidth 32 <<< 6 ||| (BitVec.ofBool sf).setWidth 32 <<< 7 |||
    (BitVec.ofBool of).setWidth 32 <<< 11

/-- The lowest byte has an even number of ones. -/
def evenParity (v : BitVec 32) : Bool :=
  (List.range 8).foldl (fun p i => p ^^ v.getLsbD i) true

/-- The flags after `a + b`. -/
def addFlags (eflags a b : BitVec 32) : BitVec 32 :=
  withStatus eflags (decide (2 ^ 32 ≤ a.toNat + b.toNat)) (evenParity (a + b))
    (decide (16 ≤ a.toNat % 16 + b.toNat % 16)) (decide (a + b = 0)) (a + b).msb
    (a.msb == b.msb && (a + b).msb != a.msb)

/-- The flags after `a - b`. -/
def subFlags (eflags a b : BitVec 32) : BitVec 32 :=
  withStatus eflags (decide (a.toNat < b.toNat)) (evenParity (a - b))
    (decide (a.toNat % 16 < b.toNat % 16)) (decide (a = b)) (a - b).msb
    (a.msb != b.msb && (a - b).msb != a.msb)

/-- The zero flag. -/
def zf (eflags : BitVec 32) : Bool := eflags.getLsbD 6

@[simp]
theorem zf_subFlags (eflags a b : BitVec 32) : zf (subFlags eflags a b) = decide (a = b) := by
  simp [zf, subFlags, withStatus, statusMask]

/-! ## Instructions -/

namespace Machine

variable (m : Machine)

/-- The value of an operand. -/
def read : Operand → BitVec 32
  | .imm v => v
  | .reg r => m.reg r
  | .seg s => (m.seg s).setWidth 32
  | .mem disp base => loadl m.mem (m.reg base + disp).toNat
  | .abs a => loadl m.mem a.toNat
  | .idx base index => loadl m.mem (m.reg base + 4 * m.reg index).toNat

/-- Store into a register. -/
def setReg (r : Reg) (v : BitVec 32) : Machine := { m with reg := Function.update m.reg r v }

/-- Store into a segment register. -/
def setSeg (s : Seg) (v : BitVec 16) : Machine := { m with seg := Function.update m.seg s v }

/-- Store into memory. -/
def setMem (a v : BitVec 32) : Machine := { m with mem := storel m.mem a.toNat v }

/-- Store into an operand. -/
def write (v : BitVec 32) : Operand → Machine
  | .imm _ => m
  | .reg r => m.setReg r v
  | .seg s => m.setSeg s (v.setWidth 16)
  | .mem disp base => m.setMem (m.reg base + disp) v
  | .abs a => m.setMem a v
  | .idx base index => m.setMem (m.reg base + 4 * m.reg index) v

/-- Store into the lower half of an operand. -/
def writew (v : BitVec 16) (dst : Operand) : Machine :=
  m.write ((m.read dst &&& 0xffff0000) ||| v.setWidth 32) dst

/-- Push a word. -/
def push (v : BitVec 32) : Machine := (m.setReg .esp (m.reg .esp - 4)).setMem (m.reg .esp - 4) v

/-- The word on top of the stack. -/
def top : BitVec 32 := loadl m.mem (m.reg .esp).toNat

/-- Take the word on top off. -/
def drop : Machine := m.setReg .esp (m.reg .esp + 4)

/-- Pop a word into an operand. -/
def pop (dst : Operand) : Machine := m.drop.write m.top dst

end Machine

variable {F : Type} (callee : F ⊕ BitVec 32 → Machine → Machine)

/-- What an instruction does. A function that is called has returned afterwards. -/
def step (m : Machine) : Instr F → Machine
  | .pushl src => m.push (m.read src)
  | .pushfl => m.push m.eflags
  | .popl dst => m.pop dst
  | .movl src dst => m.write (m.read src) dst
  | .movw src dst => m.writew ((m.read src).setWidth 16) dst
  | .addl v dst => { m.setReg dst (m.reg dst + v) with eflags := addFlags m.eflags (m.reg dst) v }
  | .subl v dst => { m.setReg dst (m.reg dst - v) with eflags := subFlags m.eflags (m.reg dst) v }
  | .cmpl v src => { m with eflags := subFlags m.eflags (m.read src) v }
  | .je _ => m
  | .call f => callee (f.map id m.reg) m
  | .iret =>
      { m.drop.drop.drop with
        eip := m.top, seg := Function.update m.seg .cs (m.drop.top.setWidth 16)
        eflags := m.drop.drop.top }

/-- Carry out instructions, the first `skip` of which are skipped. -/
def exec : ℕ → List (Instr F) → Machine → Machine
  | _, [], m => m
  | skip + 1, _ :: code, m => exec skip code m
  | 0, .je skip :: code, m => exec (if zf m.eflags then skip else 0) code m
  | 0, i :: code, m => exec 0 code (step callee m i)

variable {callee} {code code' : List (Instr F)} {σ : Machine} {os : List Operand}

/-- Skip instructions. -/
theorem exec_skip (n : ℕ) (σ : Machine) : exec callee n code σ = exec callee 0 (code.drop n) σ := by
  induction code generalizing n with
  | nil => cases n <;> rfl
  | cons i code ih =>
    cases n with
    | zero => rfl
    | succ n => exact ih n

/-! ## The stack -/

namespace Machine

@[simp] theorem setReg_seg (r : Reg) : (σ.setReg r v).seg = σ.seg := rfl
@[simp] theorem setReg_mem (r : Reg) : (σ.setReg r v).mem = σ.mem := rfl
@[simp] theorem setReg_eflags (r : Reg) : (σ.setReg r v).eflags = σ.eflags := rfl
@[simp] theorem setMem_reg (a : BitVec 32) : (σ.setMem a v).reg = σ.reg := rfl
@[simp] theorem setMem_seg (a : BitVec 32) : (σ.setMem a v).seg = σ.seg := rfl
@[simp] theorem setMem_eflags (a : BitVec 32) : (σ.setMem a v).eflags = σ.eflags := rfl
@[simp] theorem setReg_self (r : Reg) : (σ.setReg r v).reg r = v := Function.update_self ..

theorem setReg_of_ne {r r' : Reg} (h : r' ≠ r) : (σ.setReg r v).reg r' = σ.reg r' :=
  Function.update_of_ne h ..

end Machine

/-- The stack pointer, as a number. -/
def Machine.sp (m : Machine) : ℕ := (m.reg .esp).toNat

/-- An operand that pushes and pops do not change. -/
def Operand.Kept : Operand → Prop
  | .imm _ | .seg _ => True
  | .reg r => r ≠ .esp
  | _ => False

/-- The machine after some words have been pushed. -/
def Machine.pushAll (m : Machine) (ws : List (BitVec 32)) : Machine := ws.foldl Machine.push m

/-- The machine after some words have been popped into operands. -/
def Machine.popAll (m : Machine) (ps : List (Operand × BitVec 32)) : Machine :=
  ps.foldl (fun m p => m.drop.write p.2 p.1) m

section Push

theorem push_esp : (σ.push v).reg .esp = σ.reg .esp - 4 := Machine.setReg_self ..

theorem push_reg {r : Reg} (hr : r ≠ .esp) : (σ.push v).reg r = σ.reg r :=
  Machine.setReg_of_ne hr

theorem push_read {o : Operand} (ho : o.Kept) : (σ.push v).read o = σ.read o := by
  cases o with
  | reg r => exact push_reg ho
  | imm | seg => rfl
  | _ => exact ho.elim

theorem push_sp (h : 4 ≤ σ.sp) : (σ.push v).sp = σ.sp - 4 := by
  unfold Machine.sp at *
  rw [push_esp, BitVec.toNat_sub_of_le h]
  rfl

theorem push_mem (h : 4 ≤ σ.sp) (hi : i < σ.sp - 4 ∨ σ.sp ≤ i) : (σ.push v).mem i = σ.mem i := by
  apply storel_of_disjoint
  unfold Machine.sp at *
  rw [BitVec.toNat_sub_of_le h]
  show i < _ - 4 ∨ _ - 4 + 4 ≤ i
  omega

/-- The word that is pushed stands on top of the others. -/
theorem push_row (h : 4 ≤ σ.sp) (hrow : RowAt σ.mem σ.sp ws) :
    RowAt (σ.push v).mem (σ.push v).sp (v :: ws) := by
  have hsp : σ.sp - 4 + 4 = σ.sp := Nat.sub_add_cancel h
  rw [push_sp h]
  refine ⟨?_, ?_⟩
  · have haddr : (σ.reg .esp - 4).toNat = σ.sp - 4 := BitVec.toNat_sub_of_le h
    show loadl (storel σ.mem (σ.reg .esp - 4).toNat v) (σ.sp - 4) = v
    rw [haddr, loadl_storel_self]
  · rw [hsp]
    exact hrow.congr fun i hle _ => push_mem h (.inr hle)

variable {vs : List (BitVec 32)}

theorem pushAll_append : (σ.pushAll vs).pushAll ws = σ.pushAll (vs ++ ws) :=
  (List.foldl_append ..).symm

theorem pushAll_reg {r : Reg} (hr : r ≠ .esp) : (σ.pushAll vs).reg r = σ.reg r := by
  induction vs generalizing σ with
  | nil => rfl
  | cons v vs ih => exact ih.trans (push_reg hr)

theorem pushAll_seg : (σ.pushAll vs).seg = σ.seg := by
  induction vs generalizing σ with
  | nil => rfl
  | cons v vs ih => exact ih

theorem pushAll_eflags : (σ.pushAll vs).eflags = σ.eflags := by
  induction vs generalizing σ with
  | nil => rfl
  | cons v vs ih => exact ih

variable (vs) in
theorem pushAll_sp (h : 4 * vs.length ≤ σ.sp) : (σ.pushAll vs).sp = σ.sp - 4 * vs.length := by
  induction vs generalizing σ with
  | nil => rfl
  | cons v vs ih =>
    rw [List.length_cons] at h ⊢
    have hpush := push_sp (v := v) (show 4 ≤ σ.sp by omega)
    show ((σ.push v).pushAll vs).sp = _
    rw [ih (by omega), hpush]
    omega

theorem pushAll_mem (h : 4 * vs.length ≤ σ.sp) (hi : i < σ.sp - 4 * vs.length ∨ σ.sp ≤ i) :
    (σ.pushAll vs).mem i = σ.mem i := by
  induction vs generalizing σ with
  | nil => rfl
  | cons v vs ih =>
    rw [List.length_cons] at h hi
    have hsp : 4 ≤ σ.sp := by omega
    have hpush := push_sp (v := v) hsp
    show ((σ.push v).pushAll vs).mem i = _
    rw [ih (by omega) (by omega), push_mem hsp (by omega)]

variable (vs) in
/-- The words stand on the stack, the last of them on top. -/
theorem pushAll_row (h : 4 * vs.length ≤ σ.sp) (hrow : RowAt σ.mem σ.sp ws) :
    RowAt (σ.pushAll vs).mem (σ.pushAll vs).sp (vs.reverse ++ ws) := by
  induction vs generalizing σ ws with
  | nil => exact hrow
  | cons v vs ih =>
    rw [List.length_cons] at h
    have hsp : 4 ≤ σ.sp := by omega
    have hpush := push_sp (v := v) hsp
    rw [List.reverse_cons, List.append_assoc]
    exact ih (σ := σ.push v) (by omega) (push_row hsp hrow)

variable (callee code) in
/-- A row of pushes. -/
theorem exec_push (hos : ∀ o ∈ os, o.Kept) :
    exec callee 0 (os.map Instr.pushl ++ code) σ =
      exec callee 0 code (σ.pushAll (os.map σ.read)) := by
  induction os generalizing σ with
  | nil => rfl
  | cons o os ih =>
    have hread : os.map (σ.push (σ.read o)).read = os.map σ.read :=
      List.map_congr_left fun o' ho' => push_read (hos o' (List.mem_cons_of_mem _ ho'))
    show exec callee 0 (os.map Instr.pushl ++ code) (σ.push (σ.read o)) = _
    rw [ih fun o' ho' => hos o' (List.mem_cons_of_mem _ ho'), hread]
    rfl

end Push

section Pop

variable {ps : List (Operand × BitVec 32)}

theorem drop_sp (h : σ.sp + 4 < 2 ^ 32) : σ.drop.sp = σ.sp + 4 := by
  unfold Machine.sp at *
  have hdrop : σ.drop.reg .esp = σ.reg .esp + 4 := Machine.setReg_self ..
  rw [hdrop, BitVec.toNat_add]
  exact Nat.mod_eq_of_lt h

/-- A word is stored into a register or a segment register. -/
theorem write_kept {o : Operand} (ho : o.Kept) :
    (σ.write v o).mem = σ.mem ∧ (σ.write v o).sp = σ.sp ∧ (σ.write v o).eflags = σ.eflags := by
  cases o with
  | reg r => exact ⟨rfl, congrArg BitVec.toNat (Machine.setReg_of_ne (Ne.symm ho)), rfl⟩
  | imm | seg => exact ⟨rfl, rfl, rfl⟩
  | _ => exact ho.elim

theorem popAll_mem (hps : ∀ p ∈ ps, p.1.Kept) : (σ.popAll ps).mem = σ.mem := by
  induction ps generalizing σ with
  | nil => rfl
  | cons p ps ih =>
    refine (ih fun q hq => hps q (List.mem_cons_of_mem _ hq)).trans ?_
    exact (write_kept (hps p List.mem_cons_self)).1

variable (callee code) in
/-- A row of pops takes the words that stand on the stack. -/
theorem exec_pop (hps : ∀ p ∈ ps, p.1.Kept) (hrow : RowAt σ.mem σ.sp (ps.map Prod.snd))
    (h : σ.sp + 4 * ps.length < 2 ^ 32) :
    exec callee 0 (ps.map (fun p => Instr.popl p.1) ++ code) σ =
      exec callee 0 code (σ.popAll ps) := by
  induction ps generalizing σ with
  | nil => rfl
  | cons p ps ih =>
    obtain ⟨hmem, hsp, -⟩ := write_kept (σ := σ.drop) (v := p.2) (hps p List.mem_cons_self)
    rw [List.length_cons] at h
    rw [drop_sp (by omega)] at hsp
    have hpop : step callee σ (.popl p.1) = σ.drop.write p.2 p.1 := by
      show σ.drop.write (loadl σ.mem σ.sp) p.1 = _
      rw [hrow.1]
    show exec callee 0 (ps.map (fun p => Instr.popl p.1) ++ code) (step callee σ (.popl p.1)) = _
    rw [hpop, ih (fun q hq => hps q (List.mem_cons_of_mem _ hq)) ?_ (by omega)]
    · rfl
    · rw [hmem, hsp]
      exact hrow.2

end Pop

end X86
