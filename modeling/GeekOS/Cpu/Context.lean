import GeekOS.Library.X86

/-!
# Thread contexts

The assembly code of `x86_thread_asm.S` and `x86_int_asm.S`, instruction by instruction, with the
layout of `struct thread_context` of `thread.h`: how the registers of a thread are saved on its stack
and restored from there.

* `threadSwitchTo`, `intHandleInterrupt`: the two routines;
* `exec_restore`, `exec_resume`: a context on the stack becomes the registers again;
* `exec_suspend`: `thread_switch_to` leaves a context of its caller, at the return address.
-/

namespace GeekOS.Cpu

open X86

/-- `THREAD_CONTEXT_SIZE`. -/
def threadContextSize : BitVec 32 := 64

/-- `THREAD_SAVED_REG_LEN`. -/
def threadSavedRegLen : BitVec 32 := 44

/-- `THREAD_STACK_PTR_OFFSET`. -/
def threadStackPtrOffset : BitVec 32 := 0

/-- `SELECTOR`. -/
def selector (index table rpl : BitVec 16) : BitVec 16 :=
  ((index &&& 0x1fff) <<< 3) ||| table ||| (rpl &&& 3)

/-- `KERN_CS`. -/
def kernCs : BitVec 16 := selector 1 0 0

/-- `KERN_DS`. -/
def kernDs : BitVec 16 := selector 2 0 0

/-- `EFLAGS_IF`. -/
def eflagsIf : BitVec 32 := 0x200

/-- `struct thread_context`. -/
structure ThreadContext where
  gs : BitVec 32
  fs : BitVec 32
  es : BitVec 32
  ds : BitVec 32
  ebp : BitVec 32
  edi : BitVec 32
  esi : BitVec 32
  edx : BitVec 32
  ecx : BitVec 32
  ebx : BitVec 32
  eax : BitVec 32
  intNum : BitVec 32
  errorcode : BitVec 32
  eip : BitVec 32
  cs : BitVec 32
  eflags : BitVec 32
  deriving DecidableEq, Repr

namespace ThreadContext

/-- The words of a context in memory. -/
def words (c : ThreadContext) : List (BitVec 32) :=
  [c.gs, c.fs, c.es, c.ds, c.ebp, c.edi, c.esi, c.edx, c.ecx, c.ebx, c.eax, c.intNum,
    c.errorcode, c.eip, c.cs, c.eflags]

/-- The registers that a thread goes on with. -/
def resume (c : ThreadContext) (esp : BitVec 32) : Registers where
  reg
    | .eax => c.eax
    | .ebx => c.ebx
    | .ecx => c.ecx
    | .edx => c.edx
    | .esi => c.esi
    | .edi => c.edi
    | .ebp => c.ebp
    | .esp => esp
  seg
    | .cs => c.cs.setWidth 16
    | .ds => c.ds.setWidth 16
    | .es => c.es.setWidth 16
    | .fs => c.fs.setWidth 16
    | .gs => c.gs.setWidth 16
  eflags := c.eflags
  eip := c.eip

/-- The context of a thread with these registers, above what the processor or the code has
pushed. -/
def ofRegisters (r : Registers) (intNum errorcode eip cs eflags : BitVec 32) : ThreadContext where
  gs := (r.seg .gs).setWidth 32
  fs := (r.seg .fs).setWidth 32
  es := (r.seg .es).setWidth 32
  ds := (r.seg .ds).setWidth 32
  ebp := r.reg .ebp
  edi := r.reg .edi
  esi := r.reg .esi
  edx := r.reg .edx
  ecx := r.reg .ecx
  ebx := r.reg .ebx
  eax := r.reg .eax
  intNum
  errorcode
  eip
  cs
  eflags

theorem length_words (c : ThreadContext) : c.words.length = 16 := rfl

/-- A selector comes back from the word that it has been pushed in. -/
theorem setWidth_selector (v : BitVec 16) : (v.setWidth 32).setWidth 16 = v := by
  rw [BitVec.setWidth_setWidth_of_le _ (by decide), BitVec.setWidth_eq]

/-- The registers come back from their context. -/
theorem resume_ofRegisters (r : Registers) (intNum errorcode eip esp eflags : BitVec 32)
    (cs : BitVec 16) :
    (ofRegisters r intNum errorcode eip (cs.setWidth 32) eflags).resume esp =
      { reg := Function.update r.reg .esp esp, seg := Function.update r.seg .cs cs, eflags, eip } := by
  unfold resume ofRegisters
  congr 1
  · funext x
    cases x <;> rfl
  · funext x
    cases x <;> exact setWidth_selector _

end ThreadContext

/-! ## The routines -/

/-- The addresses of the variables that the routines use, and of `thread_run`. -/
structure Symbols where
  gCurrent : BitVec 32
  gPreemption : BitVec 32
  gNeedReschedule : BitVec 32
  gIntHandlerTable : BitVec 32
  threadRun : BitVec 32

/-- The functions that the routines call. -/
inductive CFunction
  | threadRelinquishCpu
  | threadMakeRunnable
  | threadNextRunnable
  deriving DecidableEq, Repr

/-- `THREAD_SAVE_REGISTERS`. -/
def threadSaveRegisters : List (Instr CFunction) :=
  [.pushl (.reg .eax), .pushl (.reg .ebx), .pushl (.reg .ecx), .pushl (.reg .edx),
    .pushl (.reg .esi), .pushl (.reg .edi), .pushl (.reg .ebp), .pushl (.seg .ds),
    .pushl (.seg .es), .pushl (.seg .fs), .pushl (.seg .gs)]

/-- `THREAD_RESTORE_REGISTERS`. -/
def threadRestoreRegisters : List (Instr CFunction) :=
  [.popl (.seg .gs), .popl (.seg .fs), .popl (.seg .es), .popl (.seg .ds), .popl (.reg .ebp),
    .popl (.reg .edi), .popl (.reg .esi), .popl (.reg .edx), .popl (.reg .ecx),
    .popl (.reg .ebx), .popl (.reg .eax)]

/-- The end of both routines: restore the registers, skip the interrupt number and the error code,
and return. -/
def returnFromInterrupt : List (Instr CFunction) :=
  threadRestoreRegisters ++ [.addl 8 .esp, .iret]

variable (sym : Symbols)

/-- Switch to the stack of the thread in `%eax`, and make it the current thread. -/
def switchStack : List (Instr CFunction) :=
  [.movl (.mem threadStackPtrOffset .eax) (.reg .esp), .movl (.reg .eax) (.abs sym.gCurrent)]

/-- The first instructions of `thread_switch_to`: `eflags` and `cs` get between the return address
and the argument. -/
def rearrangeStack : List (Instr CFunction) :=
  [.pushl (.reg .eax), .movl (.mem 4 .esp) (.reg .eax), .movl (.reg .eax) (.mem (-4) .esp),
    .addl 8 .esp, .pushfl, .movl (.mem (-4) .esp) (.reg .eax),
    .pushl (.imm (kernCs.setWidth 32)), .subl 4 .esp]

/-- `thread_switch_to`. -/
def threadSwitchTo : List (Instr CFunction) :=
  rearrangeStack ++
  -- fake error code and interrupt number
  [.pushl (.imm 0), .pushl (.imm 0)] ++
  threadSaveRegisters ++
  [.movl (.abs sym.gCurrent) (.reg .eax), .movl (.reg .esp) (.mem threadStackPtrOffset .eax),
    -- the argument is above the context
    .movl (.mem threadContextSize .esp) (.reg .eax)] ++
  switchStack sym ++
  returnFromInterrupt

/-- `int_handle_interrupt`, up to the tests. -/
def callHandler : List (Instr CFunction) :=
  [.movw (.imm (kernDs.setWidth 32)) (.reg .eax), .movw (.reg .eax) (.seg .ds),
    .movw (.reg .eax) (.seg .es), .movl (.mem threadSavedRegLen .esp) (.reg .esi),
    .movl (.imm sym.gIntHandlerTable) (.reg .eax), .movl (.idx .eax .esi) (.reg .ebx),
    .pushl (.reg .esp), .call (.inr .ebx), .addl 4 .esp]

/-- The part of `int_handle_interrupt` that chooses a new thread. -/
def chooseThread : List (Instr CFunction) :=
  [.movl (.imm 0) (.abs sym.gNeedReschedule), .movl (.abs sym.gCurrent) (.reg .ebp),
    .movl (.reg .esp) (.mem threadStackPtrOffset .ebp), .call (.inl .threadRelinquishCpu),
    .pushl (.reg .ebp), .call (.inl .threadMakeRunnable), .addl 4 .esp,
    .call (.inl .threadNextRunnable)]

/-- `int_handle_interrupt`. -/
def intHandleInterrupt : List (Instr CFunction) :=
  threadSaveRegisters ++ callHandler sym ++
  [.cmpl 0 (.abs sym.gPreemption), .je 12, .cmpl 0 (.abs sym.gNeedReschedule), .je 10] ++
  chooseThread sym ++ switchStack sym ++
  -- `1:`
  returnFromInterrupt

variable {sym} {callee : CFunction ⊕ BitVec 32 → Machine → Machine} {σ : Machine}
  {code : List (Instr CFunction)} {c : ThreadContext} {ws : List (BitVec 32)}

/-! ## Saving and restoring -/

/-- What `THREAD_SAVE_REGISTERS` pushes, the first one first. -/
def savedWords (r : Registers) : List (BitVec 32) :=
  [r.reg .eax, r.reg .ebx, r.reg .ecx, r.reg .edx, r.reg .esi, r.reg .edi, r.reg .ebp,
    (r.seg .ds).setWidth 32, (r.seg .es).setWidth 32, (r.seg .fs).setWidth 32,
    (r.seg .gs).setWidth 32]

/-- Pushes do not change what is saved. -/
theorem savedWords_pushAll : savedWords (σ.pushAll ws).toRegisters = savedWords σ.toRegisters := by
  unfold savedWords
  simp only [pushAll_seg, pushAll_reg (r := .eax) (by decide), pushAll_reg (r := .ebx) (by decide),
    pushAll_reg (r := .ecx) (by decide), pushAll_reg (r := .edx) (by decide),
    pushAll_reg (r := .esi) (by decide), pushAll_reg (r := .edi) (by decide),
    pushAll_reg (r := .ebp) (by decide)]

/-- What `THREAD_SAVE_REGISTERS` pushes. -/
def savedOperands : List Operand :=
  [.reg .eax, .reg .ebx, .reg .ecx, .reg .edx, .reg .esi, .reg .edi, .reg .ebp, .seg .ds,
    .seg .es, .seg .fs, .seg .gs]

theorem savedOperands_kept : ∀ o ∈ savedOperands, o.Kept := by
  simp [savedOperands, Operand.Kept]

/-- The registers are pushed, above some other words. -/
theorem exec_save (is : List (BitVec 32)) :
    exec callee 0 (is.map (fun v => .pushl (.imm v)) ++ (threadSaveRegisters ++ code)) σ =
      exec callee 0 code (σ.pushAll (is ++ savedWords σ.toRegisters)) := by
  have hkept : ∀ o ∈ is.map Operand.imm ++ savedOperands, o.Kept := by
    intro o ho
    rcases List.mem_append.mp ho with ho | ho
    · obtain ⟨v, -, rfl⟩ := List.mem_map.mp ho
      trivial
    · exact savedOperands_kept o ho
  have hpush := exec_push callee code (σ := σ) hkept
  rw [List.map_append, List.map_append, List.map_map, List.map_map, List.append_assoc] at hpush
  refine hpush.trans ?_
  have hread : is.map (σ.read ∘ Operand.imm) = is := List.map_id is
  rw [hread]
  rfl

/-- What `THREAD_RESTORE_REGISTERS` pops, and where to. -/
def restored (c : ThreadContext) : List (Operand × BitVec 32) :=
  [(.seg .gs, c.gs), (.seg .fs, c.fs), (.seg .es, c.es), (.seg .ds, c.ds), (.reg .ebp, c.ebp),
    (.reg .edi, c.edi), (.reg .esi, c.esi), (.reg .edx, c.edx), (.reg .ecx, c.ecx),
    (.reg .ebx, c.ebx), (.reg .eax, c.eax)]

theorem restored_kept : ∀ p ∈ restored c, p.1.Kept := by
  simp [restored, Operand.Kept]

/-- The registers after the pops. -/
theorem popAll_restored (esp : BitVec 32) :
    (σ.popAll (restored c)).reg = Function.update (c.resume esp).reg .esp (σ.reg .esp + 44) ∧
      (σ.popAll (restored c)).seg = Function.update (c.resume esp).seg .cs (σ.seg .cs) := by
  constructor
  · funext r
    cases r with
    | esp =>
      simp only [restored, Machine.popAll, List.foldl_cons, List.foldl_nil, Machine.write,
        Machine.setReg, Machine.setSeg, Machine.drop, Function.update_self, ne_eq, reduceCtorEq,
        not_false_eq_true, Function.update_of_ne]
      bv_omega
    | _ =>
      simp [restored, Machine.popAll, Machine.write, Machine.setReg, Machine.setSeg, Machine.drop,
        ThreadContext.resume]
  · funext s
    cases s <;>
      simp [restored, Machine.popAll, Machine.write, Machine.setReg, Machine.setSeg, Machine.drop,
        ThreadContext.resume]

/-- A context on the stack becomes the registers of the thread, and the memory stays as it is. -/
theorem exec_restore (hrow : RowAt σ.mem σ.sp c.words) (hsp : σ.sp + 64 < 2 ^ 32) :
    exec callee 0 returnFromInterrupt σ =
      { c.resume (σ.reg .esp + 64) with mem := σ.mem } := by
  have hwords : c.words = (restored c).map Prod.snd ++
      [c.intNum, c.errorcode, c.eip, c.cs, c.eflags] := rfl
  rw [hwords] at hrow
  obtain ⟨hsaved, -, -, heip, hcs, heflags, -⟩ := rowAt_append.mp hrow
  have hlen : (restored c).length = 11 := rfl
  have hmem := popAll_mem (σ := σ) (restored_kept (c := c))
  obtain ⟨hreg, hseg⟩ := popAll_restored (σ := σ) (c := c) (σ.reg .esp + 64)
  have hpop := exec_pop callee [.addl 8 .esp, .iret] restored_kept hsaved
    (by omega)
  rw [show returnFromInterrupt = (restored c).map (fun p => Instr.popl p.1) ++
    [.addl 8 .esp, .iret] from rfl, hpop]
  generalize σ.popAll (restored c) = τ at hmem hreg hseg ⊢
  have hesp : τ.reg .esp = σ.reg .esp + 44 := by rw [hreg, Function.update_self]
  -- the words that the processor takes
  have haddr : ∀ k : BitVec 32, k.toNat ≤ 12 →
      (τ.reg .esp + 8 + k).toNat = σ.sp + 52 + k.toNat := by
    intro k hk
    rw [hesp]
    unfold Machine.sp at *
    bv_omega
  have htop : ∀ k : BitVec 32, k.toNat ≤ 12 →
      loadl τ.mem (τ.reg .esp + 8 + k).toNat = loadl σ.mem (σ.sp + 52 + k.toNat) := by
    intro k hk
    rw [haddr k hk, hmem]
  -- the machine behind `addl`, from which `iret` takes three words
  let τ₁ : Machine := { τ.setReg .esp (τ.reg .esp + 8) with
    eflags := addFlags τ.eflags (τ.reg .esp) 8 }
  have hτ₁ : τ₁.reg .esp = τ.reg .esp + 8 := by
    show (τ.setReg .esp (τ.reg .esp + 8)).reg .esp = _
    rw [Machine.setReg_self]
  have hτ₂ : τ₁.drop.reg .esp = τ.reg .esp + 8 + 4 := by
    show (τ₁.setReg .esp (τ₁.reg .esp + 4)).reg .esp = _
    rw [Machine.setReg_self, hτ₁]
  have hτ₃ : τ₁.drop.drop.reg .esp = τ.reg .esp + 8 + 8 := by
    show (τ₁.drop.setReg .esp (τ₁.drop.reg .esp + 4)).reg .esp = _
    rw [Machine.setReg_self, hτ₂]
    bv_omega
  have htop₁ : τ₁.top = c.eip := by
    show loadl τ.mem (τ₁.reg .esp).toNat = _
    have h := (htop 0 (by decide)).trans heip
    rwa [hτ₁, ← BitVec.add_zero (τ.reg .esp + 8)]
  have htop₂ : τ₁.drop.top = c.cs := by
    show loadl τ.mem (τ₁.drop.reg .esp).toNat = _
    rw [hτ₂]
    exact (htop 4 (by decide)).trans hcs
  have htop₃ : τ₁.drop.drop.top = c.eflags := by
    show loadl τ.mem (τ₁.drop.drop.reg .esp).toNat = _
    rw [hτ₃]
    exact (htop 8 (by decide)).trans heflags
  show Machine.mk ⟨Function.update τ₁.drop.drop.reg .esp (τ₁.drop.drop.reg .esp + 4),
    Function.update τ.seg .cs (τ₁.drop.top.setWidth 16), τ₁.drop.drop.top, τ₁.top⟩ τ.mem = _
  rw [htop₁, htop₂, htop₃, hτ₃, hmem, hseg]
  congr 2
  · funext r
    cases r with
    | esp =>
      rw [Function.update_self, hesp]
      show _ = σ.reg .esp + 64
      bv_omega
    | _ =>
      show τ.reg _ = _
      rw [hreg]
      rfl
  · funext s
    cases s <;> rfl

/-- The thread in `%eax` goes on from the context that its stack pointer leads to. -/
theorem exec_resume {sp : BitVec 32} (hptr : loadl σ.mem (σ.reg .eax).toNat = sp)
    (hrow : RowAt σ.mem sp.toNat c.words) (hsp : sp.toNat + 64 < 2 ^ 32)
    (hcur : sym.gCurrent.toNat + 4 ≤ sp.toNat ∨ sp.toNat + 64 ≤ sym.gCurrent.toNat) :
    exec callee 0 (switchStack sym ++ returnFromInterrupt) σ =
      { c.resume (sp + 64) with mem := storel σ.mem sym.gCurrent.toNat (σ.reg .eax) } := by
  have hload : σ.read (.mem threadStackPtrOffset .eax) = sp := by
    show loadl σ.mem (σ.reg .eax + 0).toNat = sp
    simpa using hptr
  show exec callee 0 returnFromInterrupt
    (((σ.setReg .esp (σ.read (.mem threadStackPtrOffset .eax))).setMem sym.gCurrent
      ((σ.setReg .esp (σ.read (.mem threadStackPtrOffset .eax))).reg .eax))) = _
  rw [hload, Machine.setReg_of_ne (by decide)]
  have hesp : ((σ.setReg .esp sp).setMem sym.gCurrent (σ.reg .eax)).reg .esp = sp :=
    Machine.setReg_self ..
  rw [exec_restore (c := c), hesp]
  · rfl
  · rw [Machine.sp, hesp]
    exact hrow.storel_of_disjoint (by rw [ThreadContext.length_words]; omega)
  · rwa [Machine.sp, hesp]

/-- A machine that differs from another one in `%eax`, the stack pointer, the flags and the
memory. -/
def onStack (σ : Machine) (eax esp eflags : BitVec 32) (mem : Words.Memory) : Machine :=
  { σ with reg := Function.update (Function.update σ.reg .esp esp) .eax eax, eflags, mem }

section OnStack

variable {eax esp eflags v : BitVec 32} {mem : Words.Memory}

theorem step_onStack_push (o : Operand) (v : BitVec 32)
    (h : (onStack σ eax esp eflags mem).read o = v) :
    step callee (onStack σ eax esp eflags mem) (.pushl o) =
      onStack σ eax (esp - 4) eflags (storel mem (esp - 4).toNat v) := by
  show (onStack σ eax esp eflags mem).push ((onStack σ eax esp eflags mem).read o) = _
  rw [h]
  refine Machine.ext ?_ rfl rfl rfl rfl
  funext r
  cases r <;> rfl

theorem step_onStack_pushfl :
    step callee (onStack σ eax esp eflags mem) .pushfl =
      onStack σ eax (esp - 4) eflags (storel mem (esp - 4).toNat eflags) := by
  refine Machine.ext ?_ rfl rfl rfl rfl
  funext r
  cases r <;> rfl

theorem step_onStack_load (h : loadl mem (esp + v).toNat = eax) (eax₀ : BitVec 32) :
    step callee (onStack σ eax₀ esp eflags mem) (.movl (.mem v .esp) (.reg .eax)) =
      onStack σ eax esp eflags mem := by
  rw [← h]
  refine Machine.ext ?_ rfl rfl rfl rfl
  funext r
  cases r <;> rfl

theorem step_onStack_store :
    step callee (onStack σ eax esp eflags mem) (.movl (.reg .eax) (.mem v .esp)) =
      onStack σ eax esp eflags (storel mem (esp + v).toNat eax) :=
  rfl

theorem step_onStack_add :
    step callee (onStack σ eax esp eflags mem) (.addl v .esp) =
      onStack σ eax (esp + v) (addFlags eflags esp v) mem := by
  refine Machine.ext ?_ rfl rfl rfl rfl
  funext r
  cases r <;> rfl

theorem step_onStack_sub :
    step callee (onStack σ eax esp eflags mem) (.subl v .esp) =
      onStack σ eax (esp - v) (subFlags eflags esp v) mem := by
  refine Machine.ext ?_ rfl rfl rfl rfl
  funext r
  cases r <;> rfl

end OnStack

variable (callee code) in
/-- The first instructions of `thread_switch_to` leave the return address, `cs`, `eflags` and the
argument on the stack, and all of the registers as they were. -/
theorem exec_rearrange {ret arg : BitVec 32} (hrow : RowAt σ.mem σ.sp [ret, arg])
    (hroom : 8 ≤ σ.sp) (hsp : σ.sp + 4 < 2 ^ 32) :
    ∃ τ, exec callee 0 (rearrangeStack ++ code) σ = exec callee 0 code τ ∧
      τ.reg = Function.update σ.reg .esp (σ.reg .esp - 8) ∧ τ.seg = σ.seg ∧
      RowAt τ.mem τ.sp [ret, kernCs.setWidth 32, addFlags σ.eflags (σ.reg .esp - 4) 8, arg] ∧
      ∀ i, i < σ.sp - 8 ∨ σ.sp + 4 ≤ i → τ.mem i = σ.mem i := by
  obtain ⟨below, hbelow, hrow₀⟩ := exists_rowAt σ.mem (σ.sp - 8) 2
  obtain ⟨x, y, rfl⟩ := List.length_eq_two.mp hbelow
  have hrow₀ : RowAt σ.mem (σ.sp - 8) [x, y, ret, arg] := by
    refine rowAt_append.mpr ⟨hrow₀, ?_⟩
    have hup : σ.sp - 8 + 4 * [x, y].length = σ.sp := Nat.sub_add_cancel hroom
    rwa [hup]
  -- the addresses of the words, from the lowest one on
  have h₀ : (σ.reg .esp - 8).toNat = σ.sp - 8 := by unfold Machine.sp at *; bv_omega
  have h₁ : (σ.reg .esp - 4).toNat = σ.sp - 8 + 4 := by unfold Machine.sp at *; bv_omega
  have h₂ : (σ.reg .esp).toNat = σ.sp - 8 + 4 + 4 := by unfold Machine.sp at *; omega
  let flags := addFlags σ.eflags (σ.reg .esp - 4) 8
  -- the memory after each store, and the four words in it
  let mem₁ := storel σ.mem (σ.reg .esp - 4).toNat (σ.reg .eax)
  let mem₂ := storel mem₁ (σ.reg .esp - 8).toNat ret
  let mem₃ := storel mem₂ (σ.reg .esp).toNat flags
  let mem₄ := storel mem₃ (σ.reg .esp - 4).toNat (kernCs.setWidth 32)
  have hrow₁ : RowAt mem₁ (σ.sp - 8) [x, σ.reg .eax, ret, arg] :=
    RowAt.storel [x] hrow₀ h₁
  have hrow₂ : RowAt mem₂ (σ.sp - 8) [ret, σ.reg .eax, ret, arg] :=
    RowAt.storel [] hrow₁ h₀
  have hrow₃ : RowAt mem₃ (σ.sp - 8) [ret, σ.reg .eax, flags, arg] :=
    RowAt.storel [ret, σ.reg .eax] hrow₂ h₂
  have hrow₄ : RowAt mem₄ (σ.sp - 8) [ret, kernCs.setWidth 32, flags, arg] :=
    RowAt.storel [ret] hrow₃ h₁
  have hstart : σ = onStack σ (σ.reg .eax) (σ.reg .esp) σ.eflags σ.mem := by
    refine Machine.ext ?_ rfl rfl rfl rfl
    funext r
    cases r <;> rfl
  have hret : loadl mem₁ (σ.reg .esp - 4 + 4).toNat = ret := by
    rw [BitVec.sub_add_cancel, h₂]
    exact hrow₁.2.2.1
  have heax : loadl mem₃ (σ.reg .esp + -4).toNat = σ.reg .eax := by
    have haddr : (σ.reg .esp + -4).toNat = σ.sp - 8 + 4 := by
      unfold Machine.sp at *
      bv_omega
    rw [haddr]
    exact hrow₃.2.1
  have hdown : σ.reg .esp - 4 + -4 = σ.reg .esp - 8 := by bv_omega
  have hdown' : σ.reg .esp - 4 - 4 = σ.reg .esp - 8 := by bv_omega
  have hup : σ.reg .esp - 4 + 8 - 4 = σ.reg .esp := by bv_omega
  refine ⟨onStack σ (σ.reg .eax) (σ.reg .esp - 8) (subFlags flags (σ.reg .esp - 4) 4) mem₄, ?_, ?_,
    rfl, ?_, ?_⟩
  · calc exec callee 0 (rearrangeStack ++ code) σ
        = exec callee 0 code (rearrangeStack.foldl (step callee) σ) := rfl
      _ = exec callee 0 code (rearrangeStack.foldl (step callee)
            (onStack σ (σ.reg .eax) (σ.reg .esp) σ.eflags σ.mem)) := by rw [← hstart]
      _ = _ := by
        simp only [rearrangeStack, List.foldl_cons, List.foldl_nil]
        rw [step_onStack_push (.reg .eax) (σ.reg .eax) rfl, step_onStack_load hret,
          step_onStack_store, hdown, step_onStack_add, step_onStack_pushfl, hup,
          step_onStack_load heax, step_onStack_push (.imm (kernCs.setWidth 32)) _ rfl,
          step_onStack_sub, hdown']
        rfl
  · funext r
    cases r <;> rfl
  · have hsp' : (onStack σ (σ.reg .eax) (σ.reg .esp - 8)
        (subFlags flags (σ.reg .esp - 4) 4) mem₄).sp = σ.sp - 8 := h₀
    rw [hsp']
    exact hrow₄
  · intro i hi
    show mem₄ i = σ.mem i
    refine (storel_of_disjoint ?_).trans ((storel_of_disjoint ?_).trans
      ((storel_of_disjoint ?_).trans (storel_of_disjoint ?_))) <;> omega

/-- What `thread_switch_to` leaves of its caller: the context that it goes on with at the return
address. -/
def callerContext (σ : Machine) (ret : BitVec 32) : ThreadContext :=
  .ofRegisters σ.toRegisters 0 0 ret (kernCs.setWidth 32)
    (addFlags σ.eflags (σ.reg .esp - 4) 8)

variable (callee) in
/-- The first half of `thread_switch_to`: the context of the caller stands on its stack, its stack
pointer is stored, and the next thread is in `%eax`. -/
theorem exec_suspend {ret arg cur : BitVec 32} (hrow : RowAt σ.mem σ.sp [ret, arg])
    (hroom : 60 ≤ σ.sp) (hsp : σ.sp + 8 ≤ 2 ^ 32)
    (hcurrent : sym.gCurrent.toNat + 4 ≤ σ.sp - 60 ∨ σ.sp + 8 ≤ sym.gCurrent.toNat)
    (hcur : loadl σ.mem sym.gCurrent.toNat = cur)
    (hptr : cur.toNat + 4 ≤ σ.sp - 60 ∨ σ.sp + 8 ≤ cur.toNat) :
    ∃ τ, exec callee 0 (threadSwitchTo sym) σ =
        exec callee 0 (switchStack sym ++ returnFromInterrupt) τ ∧
      τ.reg .eax = arg ∧
      RowAt τ.mem (σ.sp - 60) (callerContext σ ret).words ∧
      loadl τ.mem cur.toNat = σ.reg .esp - 60 ∧
      ∀ i, (i < σ.sp - 60 ∨ σ.sp + 4 ≤ i) → (i < cur.toNat ∨ cur.toNat + 4 ≤ i) →
        τ.mem i = σ.mem i := by
  obtain ⟨ρ, hexec, hreg, hseg, hρrow, hρmem⟩ := exec_rearrange callee
    ([.pushl (.imm 0), .pushl (.imm 0)] ++ (threadSaveRegisters ++
      ([.movl (.abs sym.gCurrent) (.reg .eax),
        .movl (.reg .esp) (.mem threadStackPtrOffset .eax),
        .movl (.mem threadContextSize .esp) (.reg .eax)] ++
      (switchStack sym ++ returnFromInterrupt)))) hrow (by omega) (by omega)
  have hρsp : ρ.sp = σ.sp - 8 := by
    have haddr : (σ.reg .esp - 8).toNat = σ.sp - 8 := by unfold Machine.sp at *; bv_omega
    rw [Machine.sp, hreg, Function.update_self, haddr]
  have hρreg : ∀ r, r ≠ .esp → ρ.reg r = σ.reg r := by
    intro r hr
    rw [hreg, Function.update_of_ne hr]
  have hsaved : savedWords ρ.toRegisters = savedWords σ.toRegisters := by
    unfold savedWords
    simp only [hseg, hρreg .eax (by decide), hρreg .ebx (by decide), hρreg .ecx (by decide),
      hρreg .edx (by decide), hρreg .esi (by decide), hρreg .edi (by decide),
      hρreg .ebp (by decide)]
  -- the error code, the number of the interrupt and the registers come below the rearranged words
  have hrun := hexec.trans (exec_save [0, 0])
  rw [hsaved] at hrun
  have hpushed : ([0, 0] ++ savedWords σ.toRegisters).length = 13 := rfl
  have hrow₁ := pushAll_row ([0, 0] ++ savedWords σ.toRegisters) (by omega) hρrow
  have hsp₁ := pushAll_sp ([0, 0] ++ savedWords σ.toRegisters) (σ := ρ) (by omega)
  have hmem₁ : ∀ i, (i < σ.sp - 60 ∨ σ.sp + 4 ≤ i) →
      (ρ.pushAll ([0, 0] ++ savedWords σ.toRegisters)).mem i = σ.mem i := by
    intro i hi
    rw [pushAll_mem (by omega) (by omega), hρmem i (by omega)]
  generalize ρ.pushAll ([0, 0] ++ savedWords σ.toRegisters) = ρ₁ at hrun hrow₁ hsp₁ hmem₁
  have hbottom : ρ₁.sp = σ.sp - 60 := by omega
  have hesp₁ : ρ₁.reg .esp = σ.reg .esp - 60 := by
    apply BitVec.eq_of_toNat_eq
    unfold Machine.sp at *
    bv_omega
  rw [hbottom] at hrow₁
  have hcur₁ : loadl ρ₁.mem sym.gCurrent.toNat = cur := by
    rw [← hcur]
    exact loadl_congr fun i hle hlt => hmem₁ i (by omega)
  -- the stack pointer is stored, next to the row
  have hrow₂ : RowAt (storel ρ₁.mem cur.toNat (ρ₁.reg .esp)) (σ.sp - 60)
      ((callerContext σ ret).words ++ [arg]) :=
    hrow₁.storel_of_disjoint (by show _ ∨ σ.sp - 60 + 4 * 17 ≤ _; omega)
  obtain ⟨hcontext, harg, -⟩ := rowAt_append.mp hrow₂
  have hargaddr : (ρ₁.reg .esp + threadContextSize).toNat = σ.sp - 60 + 4 * 16 := by
    rw [hesp₁]
    unfold threadContextSize Machine.sp at *
    bv_omega
  have hcuraddr : (cur + threadStackPtrOffset).toNat = cur.toNat := by
    unfold threadStackPtrOffset
    simp
  let ρ₂ : Machine := (ρ₁.setReg .eax cur).setMem cur (ρ₁.reg .esp)
  refine ⟨ρ₂.setReg .eax arg, ?_, ?_, hcontext, ?_, ?_⟩
  · refine Eq.trans ?_ (hrun.trans ?_)
    · rw [threadSwitchTo]
      simp only [List.append_assoc]
    · have hload : ρ₁.read (.abs sym.gCurrent) = cur := hcur₁
      have hstore : step callee (ρ₁.setReg .eax cur)
          (.movl (.reg .esp) (.mem threadStackPtrOffset .eax)) = ρ₂ := by
        show (ρ₁.setReg .eax cur).setMem ((ρ₁.setReg .eax cur).reg .eax + threadStackPtrOffset)
          ((ρ₁.setReg .eax cur).reg .esp) = ρ₂
        rw [Machine.setReg_self, Machine.setReg_of_ne (by decide)]
        show _ = (ρ₁.setReg .eax cur).setMem cur (ρ₁.reg .esp)
        unfold Machine.setMem
        rw [hcuraddr]
      have hargument : ρ₂.read (.mem threadContextSize .esp) = arg := by
        show loadl ρ₂.mem (ρ₁.reg .esp + threadContextSize).toNat = arg
        rw [hargaddr]
        exact harg
      show exec callee 0 (switchStack sym ++ returnFromInterrupt)
        (step callee (step callee (ρ₁.setReg .eax (ρ₁.read (.abs sym.gCurrent)))
          (.movl (.reg .esp) (.mem threadStackPtrOffset .eax)))
          (.movl (.mem threadContextSize .esp) (.reg .eax))) = _
      rw [hload, hstore]
      show exec callee 0 _ (ρ₂.setReg .eax (ρ₂.read (.mem threadContextSize .esp))) = _
      rw [hargument]
  · exact Machine.setReg_self ..
  · show loadl (storel ρ₁.mem cur.toNat (ρ₁.reg .esp)) cur.toNat = _
    rw [loadl_storel_self, hesp₁]
  · intro i hi hne
    show storel ρ₁.mem cur.toNat (ρ₁.reg .esp) i = _
    rw [storel_of_disjoint hne, hmem₁ i hi]

end GeekOS.Cpu
