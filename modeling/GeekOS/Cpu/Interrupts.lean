import GeekOS.Cpu.Context

/-!
# Handling interrupts

The way of an interrupt from the processor through the handler stubs of `x86_int_asm.S` to
`int_handle_interrupt`, which calls the C handler and goes on with the thread that has been
interrupted or with another one.

* `intHandlerStubVector`, `getElem_intHandlerStubVector`: the stub of each vector;
* `exec_enter`: whatever the vector, a complete context stands on the stack;
* `Cdecl`: what the compiler promises about the functions that are called;
* `exec_callHandler`, `exec_chooseThread`: the parts of the routine.
-/

namespace GeekOS.Cpu

open X86

/-- `INT_NUM_INTERRUPTS`. -/
def intNumInterrupts : ℕ := 64

/-- The processor pushes an error code for these vectors. -/
def pushesErrorCode (n : ℕ) : Bool := n ∈ [8, 10, 11, 12, 13, 14, 17]

/-- What is cleared when an interrupt goes through a gate: the trap, interrupt, nested task, resume
and virtual 8086 flags. -/
def gateMask : BitVec 32 := 0x34300

/-- The processor takes an interrupt: it pushes `eflags`, `cs` and `eip`, and an error code if the
vector has one, and goes on at the entry of a gate. -/
def deliver (σ : Machine) (entry : BitVec 32) (cs : BitVec 16) (errorcode : Option (BitVec 32)) :
    Machine :=
  let σ' := ((σ.push σ.eflags).push ((σ.seg .cs).setWidth 32)).push σ.eip
  let σ' := match errorcode with
    | some e => σ'.push e
    | none => σ'
  { σ' with
    eflags := σ.eflags &&& ~~~gateMask, seg := Function.update σ.seg .cs cs, eip := entry }

/-! ## The stubs -/

/-- `HANDLER_STUB`, with its jump to `int_handle_interrupt` left out. -/
def handlerStub (inum : ℕ) : List (Instr CFunction) :=
  [.pushl (.imm 0), .pushl (.imm (BitVec.ofNat 32 inum))]

/-- `HANDLER_STUB_X2`. -/
def handlerStubX2 (inum : ℕ) : List (List (Instr CFunction)) :=
  [handlerStub inum, handlerStub (inum + 1)]

/-- `HANDLER_STUB_X4`. -/
def handlerStubX4 (inum : ℕ) : List (List (Instr CFunction)) :=
  handlerStubX2 inum ++ handlerStubX2 (inum + 2)

/-- `HANDLER_STUB_X8`. -/
def handlerStubX8 (inum : ℕ) : List (List (Instr CFunction)) :=
  handlerStubX4 inum ++ handlerStubX4 (inum + 4)

/-- `HANDLER_STUB_ERRCODE`. -/
def handlerStubErrcode (inum : ℕ) : List (Instr CFunction) :=
  [.pushl (.imm (BitVec.ofNat 32 inum))]

/-- `int_handler_stub_vector`. -/
def intHandlerStubVector : List (List (Instr CFunction)) :=
  handlerStubX8 0 ++
  [handlerStubErrcode 8, handlerStub 9, handlerStubErrcode 10, handlerStubErrcode 11,
    handlerStubErrcode 12, handlerStubErrcode 13, handlerStubErrcode 14] ++
  handlerStubX2 15 ++ [handlerStubErrcode 17] ++ handlerStubX2 18 ++ handlerStubX4 20 ++
  handlerStubX8 24 ++ handlerStubX8 32 ++ handlerStubX8 40 ++ handlerStubX8 48 ++ handlerStubX8 56

/-- There is a stub for each vector, which pushes an error code if the processor does not. -/
theorem getElem_intHandlerStubVector {n : ℕ} (hn : n < intNumInterrupts) :
    intHandlerStubVector[n]? =
      some (if pushesErrorCode n then handlerStubErrcode n else handlerStub n) := by
  revert n
  decide

variable {sym : Symbols} {callee : CFunction ⊕ BitVec 32 → Machine → Machine} {σ : Machine}
  {code : List (Instr CFunction)} {ws : List (BitVec 32)} {n : ℕ}

/-- The context of a thread that is interrupted. -/
def interruptContext (σ : Machine) (n : ℕ) (errorcode : BitVec 32) : ThreadContext :=
  .ofRegisters σ.toRegisters (BitVec.ofNat 32 n) errorcode σ.eip ((σ.seg .cs).setWidth 32) σ.eflags

/-- The thread goes on with the registers that it had. -/
theorem resume_interruptContext (errorcode : BitVec 32) :
    (interruptContext σ n errorcode).resume (σ.reg .esp) = σ.toRegisters := by
  rw [interruptContext, ThreadContext.resume_ofRegisters, Function.update_eq_self,
    Function.update_eq_self]

/-- The error code that stands on the stack. -/
def errorcodeOf (n : ℕ) (e : BitVec 32) : BitVec 32 := if pushesErrorCode n then e else 0

/-- The processor takes the interrupt `n`, with the error code `e` if it has one. -/
def interrupted (σ : Machine) (n : ℕ) (entry e : BitVec 32) : Machine :=
  deliver σ entry kernCs (if pushesErrorCode n then some e else none)

/-- The code that an interrupt goes through. -/
def interruptCode (sym : Symbols) (n : ℕ) : List (Instr CFunction) :=
  (intHandlerStubVector[n]?).getD [] ++ intHandleInterrupt sym

variable (callee code) in
/-- When the registers have been saved, a context of the thread stands on its stack, whether the
processor pushes an error code or the stub does. -/
theorem exec_enter (hn : n < intNumInterrupts) (entry e : BitVec 32) (hroom : 64 ≤ σ.sp) :
    ∃ τ, exec callee 0 ((intHandlerStubVector[n]?).getD [] ++ (threadSaveRegisters ++ code))
        (interrupted σ n entry e) = exec callee 0 code τ ∧
      τ.reg .esp = σ.reg .esp - 64 ∧ τ.eflags = σ.eflags &&& ~~~gateMask ∧
      RowAt τ.mem (σ.sp - 64) (interruptContext σ n (errorcodeOf n e)).words ∧
      ∀ i, i < σ.sp - 64 ∨ σ.sp ≤ i → τ.mem i = σ.mem i := by
  let ρ : Machine := { σ with
    eflags := σ.eflags &&& ~~~gateMask, seg := Function.update σ.seg .cs kernCs, eip := entry }
  let pushed := [σ.eflags, (σ.seg .cs).setWidth 32, σ.eip, errorcodeOf n e, BitVec.ofNat 32 n] ++
    savedWords σ.toRegisters
  have hlen : pushed.length = 16 := rfl
  have hρ : ρ.sp = σ.sp := rfl
  refine ⟨ρ.pushAll pushed, ?_, ?_, pushAll_eflags, ?_, ?_⟩
  · have hsaved : ∀ ws, savedWords (ρ.pushAll ws).toRegisters = savedWords σ.toRegisters :=
      fun _ => savedWords_pushAll
    rw [getElem_intHandlerStubVector hn, Option.getD_some]
    by_cases hcode : pushesErrorCode n = true
    · -- the processor has pushed the error code
      have hin : interrupted σ n entry e =
          ρ.pushAll [σ.eflags, (σ.seg .cs).setWidth 32, σ.eip, e] := by
        rw [interrupted, if_pos hcode]
        rfl
      have hstub : handlerStubErrcode n = [BitVec.ofNat 32 n].map fun v => .pushl (.imm v) := rfl
      have herr : errorcodeOf n e = e := if_pos hcode
      rw [if_pos hcode, hin, hstub, exec_save, hsaved, pushAll_append]
      show _ = exec callee 0 code (ρ.pushAll ([σ.eflags, (σ.seg .cs).setWidth 32, σ.eip,
        errorcodeOf n e, BitVec.ofNat 32 n] ++ savedWords σ.toRegisters))
      rw [herr]
      rfl
    · have hin : interrupted σ n entry e =
          ρ.pushAll [σ.eflags, (σ.seg .cs).setWidth 32, σ.eip] := by
        rw [interrupted, if_neg hcode]
        rfl
      have hstub : handlerStub n = [0, BitVec.ofNat 32 n].map fun v => .pushl (.imm v) := rfl
      have herr : errorcodeOf n e = 0 := if_neg hcode
      rw [if_neg hcode, hin, hstub, exec_save, hsaved, pushAll_append]
      show _ = exec callee 0 code (ρ.pushAll ([σ.eflags, (σ.seg .cs).setWidth 32, σ.eip,
        errorcodeOf n e, BitVec.ofNat 32 n] ++ savedWords σ.toRegisters))
      rw [herr]
      rfl
  · apply BitVec.eq_of_toNat_eq
    have hsp := pushAll_sp pushed (σ := ρ) (by omega)
    unfold Machine.sp at *
    bv_omega
  · have hrow := pushAll_row pushed (by omega)
      (show RowAt ρ.mem ρ.sp [] from trivial)
    have hsp := pushAll_sp pushed (σ := ρ) (by omega)
    have hbottom : (ρ.pushAll pushed).sp = σ.sp - 64 := by omega
    rw [hbottom, List.append_nil] at hrow
    exact hrow
  · intro i hi
    rw [pushAll_mem (by omega) (by omega)]

/-! ## The routine -/

/-- The number of arguments on the stack. -/
def arguments : CFunction ⊕ BitVec 32 → ℕ
  | .inl .threadRelinquishCpu | .inl .threadNextRunnable => 0
  | .inl .threadMakeRunnable | .inr _ => 1

/-- What the compiler promises about functions that are called on a stack from `base` on, with room
for `reserve` bytes: they leave the stack pointer and the bytes of `Kept` as they were, except for
their own part of the stack, which ends with their arguments. -/
structure Cdecl (callee : CFunction ⊕ BitVec 32 → Machine → Machine) (base reserve : ℕ)
    (Kept : ℕ → Prop) : Prop where
  esp : ∀ f σ, base + reserve ≤ σ.sp → (callee f σ).reg .esp = σ.reg .esp
  mem : ∀ f σ i, base + reserve ≤ σ.sp → Kept i → (i < base ∨ σ.sp + 4 * arguments f ≤ i) →
    (callee f σ).mem i = σ.mem i

variable {base reserve : ℕ} {Kept : ℕ → Prop}

variable (sym code) in
/-- The C handler is called, with the context on the stack. -/
theorem exec_callHandler (hcdecl : Cdecl callee base reserve Kept)
    (hroom : base + reserve + 4 ≤ σ.sp) :
    ∃ τ, exec callee 0 (callHandler sym ++ code) σ = exec callee 0 code τ ∧
      τ.reg .esp = σ.reg .esp ∧
      ∀ i, Kept i → (i < base ∨ σ.sp ≤ i) → τ.mem i = σ.mem i := by
  -- the machine at the call, with the address of the context on its stack
  let ρ := ((callHandler sym).take 7).foldl (step callee) σ
  have hesp : ρ.reg .esp = σ.reg .esp - 4 := rfl
  have hsp : ρ.sp = σ.sp - 4 := by
    unfold Machine.sp at *
    rw [hesp]
    bv_omega
  have hmem : ∀ i, i < σ.sp - 4 ∨ σ.sp ≤ i → ρ.mem i = σ.mem i := by
    intro i hi
    show storel σ.mem (σ.reg .esp - 4).toNat (σ.reg .esp) i = _
    apply storel_of_disjoint
    have haddr : (σ.reg .esp - 4).toNat = ρ.sp := by rw [Machine.sp, hesp]
    omega
  let τ := callee (.inr (ρ.reg .ebx)) ρ
  have hτ : τ.reg .esp = σ.reg .esp - 4 :=
    (hcdecl.esp _ ρ (by omega)).trans hesp
  refine ⟨step callee τ (.addl 4 .esp), rfl, ?_, ?_⟩
  · show (τ.setReg .esp (τ.reg .esp + 4)).reg .esp = _
    rw [Machine.setReg_self, hτ, BitVec.sub_add_cancel]
  · intro i hkept hi
    show τ.mem i = _
    have hcall : τ.mem i = ρ.mem i := by
      refine hcdecl.mem _ ρ i (by omega) hkept (hi.imp_right fun hi => ?_)
      show ρ.sp + 4 * 1 ≤ i
      omega
    rw [hcall, hmem i (by omega)]

variable (sym code) in
/-- The current thread is put back on the run queue, with its stack pointer stored, and another one
is chosen. -/
theorem exec_chooseThread {cur : BitVec 32} (hcdecl : Cdecl callee base reserve Kept)
    (hroom : base + reserve + 4 ≤ σ.sp) (hcur : loadl σ.mem sym.gCurrent.toNat = cur)
    (hneed : sym.gNeedReschedule.toNat + 4 ≤ sym.gCurrent.toNat ∨
      sym.gCurrent.toNat + 4 ≤ sym.gNeedReschedule.toNat)
    (hptr : ∀ i, cur.toNat ≤ i → i < cur.toNat + 4 → Kept i ∧ (i < base ∨ σ.sp ≤ i)) :
    ∃ τ, exec callee 0 (chooseThread sym ++ code) σ = exec callee 0 code τ ∧
      (∃ ρ, base + reserve ≤ ρ.sp ∧ τ = callee (.inl .threadNextRunnable) ρ) ∧
      loadl τ.mem cur.toNat = σ.reg .esp ∧
      ∀ i, Kept i → (i < base ∨ σ.sp ≤ i) → (i < cur.toNat ∨ cur.toNat + 4 ≤ i) →
        (i < sym.gNeedReschedule.toNat ∨ sym.gNeedReschedule.toNat + 4 ≤ i) →
        τ.mem i = σ.mem i := by
  -- the machine at the first call, with the stack pointer of the thread stored
  let ρ := ((chooseThread sym).take 3).foldl (step callee) σ
  have hesp : ρ.reg .esp = σ.reg .esp := rfl
  have hsp : ρ.sp = σ.sp := rfl
  let mem₁ := storel σ.mem sym.gNeedReschedule.toNat 0
  have hcur₁ : loadl mem₁ sym.gCurrent.toNat = cur := by
    rw [loadl_storel_of_disjoint (by omega), hcur]
  have hmem : ρ.mem = storel mem₁ cur.toNat (σ.reg .esp) := by
    show storel mem₁ (loadl mem₁ sym.gCurrent.toNat + threadStackPtrOffset).toNat (σ.reg .esp) = _
    have haddr : (loadl mem₁ sym.gCurrent.toNat + threadStackPtrOffset).toNat = cur.toNat := by
      rw [hcur₁]
      unfold threadStackPtrOffset
      simp
    rw [haddr]
  -- the calls, with the argument of the second one on the stack
  let τ₁ := callee (.inl .threadRelinquishCpu) ρ
  have hτ₁ : τ₁.reg .esp = σ.reg .esp := hcdecl.esp _ ρ (by omega)
  have hsp₁ : τ₁.sp = σ.sp := congrArg BitVec.toNat hτ₁
  let τ₂ := τ₁.push (τ₁.reg .ebp)
  have hsp₂ : τ₂.sp = σ.sp - 4 := (push_sp (by omega)).trans (by rw [hsp₁])
  let τ₃ := callee (.inl .threadMakeRunnable) τ₂
  have hτ₃ : τ₃.reg .esp = τ₂.reg .esp := hcdecl.esp _ τ₂ (by omega)
  let τ₄ := step callee τ₃ (.addl 4 .esp)
  have hτ₄ : τ₄.reg .esp = σ.reg .esp := by
    show (τ₃.setReg .esp (τ₃.reg .esp + 4)).reg .esp = _
    rw [Machine.setReg_self, hτ₃, push_esp, hτ₁, BitVec.sub_add_cancel]
  have hsp₄ : τ₄.sp = σ.sp := congrArg BitVec.toNat hτ₄
  have hkeep : ∀ i, Kept i → (i < base ∨ σ.sp ≤ i) →
      (callee (.inl .threadNextRunnable) τ₄).mem i = ρ.mem i := by
    intro i hkept hi
    have h₁ : τ₁.mem i = ρ.mem i :=
      hcdecl.mem _ ρ i (by omega) hkept (hi.imp_right fun hi => by rw [hsp]; exact hi)
    have h₂ : τ₂.mem i = τ₁.mem i := push_mem (by omega) (by omega)
    have h₃ : τ₃.mem i = τ₂.mem i := by
      refine hcdecl.mem _ τ₂ i (by omega) hkept (hi.imp_right fun hi => ?_)
      show τ₂.sp + 4 * 1 ≤ i
      omega
    have h₄ : (callee (.inl .threadNextRunnable) τ₄).mem i = τ₄.mem i :=
      hcdecl.mem _ τ₄ i (by omega) hkept (hi.imp_right fun hi => by rw [hsp₄]; exact hi)
    rw [h₄, ← h₁, ← h₂, ← h₃]
    rfl
  refine ⟨callee (.inl .threadNextRunnable) τ₄, rfl, ⟨τ₄, by omega, rfl⟩, ?_, ?_⟩
  · have hload : loadl (callee (.inl .threadNextRunnable) τ₄).mem cur.toNat =
        loadl ρ.mem cur.toNat := by
      refine loadl_congr fun i hle hlt => ?_
      obtain ⟨hkept, hi⟩ := hptr i hle hlt
      exact hkeep i hkept hi
    rw [hload, hmem, loadl_storel_self]
  · intro i hkept hi hne hne'
    rw [hkeep i hkept hi, hmem, storel_of_disjoint hne]
    exact storel_of_disjoint hne'

/-- The tests of the routine. -/
def tests (sym : Symbols) : List (Instr CFunction) :=
  [.cmpl 0 (.abs sym.gPreemption), .je 12, .cmpl 0 (.abs sym.gNeedReschedule), .je 10]

variable (sym callee) in
/-- They skip the choice of a new thread while preemption is disabled or nobody has asked for it. -/
theorem exec_tests (σ : Machine) : ∃ eflags,
    exec callee 0 (tests sym ++ (chooseThread sym ++ (switchStack sym ++ returnFromInterrupt))) σ =
      if loadl σ.mem sym.gPreemption.toNat = 0 ∨ loadl σ.mem sym.gNeedReschedule.toNat = 0 then
        exec callee 0 returnFromInterrupt { σ with eflags }
      else exec callee 0 (chooseThread sym ++ (switchStack sym ++ returnFromInterrupt))
        { σ with eflags } := by
  let flags := subFlags σ.eflags (loadl σ.mem sym.gPreemption.toNat) 0
  by_cases hpreemption : loadl σ.mem sym.gPreemption.toNat = 0
  · refine ⟨flags, ?_⟩
    rw [if_pos (.inl hpreemption)]
    show exec callee (if zf flags then 12 else 0) _ { σ with eflags := flags } = _
    rw [zf_subFlags, decide_eq_true hpreemption, if_pos rfl, exec_skip]
    rfl
  · refine ⟨subFlags flags (loadl σ.mem sym.gNeedReschedule.toNat) 0, ?_⟩
    show exec callee (if zf flags then 12 else 0) _ { σ with eflags := flags } = _
    rw [zf_subFlags, decide_eq_false hpreemption]
    show exec callee (if zf (subFlags flags (loadl σ.mem sym.gNeedReschedule.toNat) 0) then 10
      else 0) _ _ = _
    rw [zf_subFlags]
    by_cases hneed : loadl σ.mem sym.gNeedReschedule.toNat = 0
    · rw [decide_eq_true hneed, if_pos rfl, if_pos (Or.inr hneed), exec_skip]
      rfl
    · rw [decide_eq_false hneed, if_neg (not_or.mpr ⟨hpreemption, hneed⟩)]
      rfl

/-- The two ways of an interrupt: the thread goes on with all of its registers as they were, or its
context stands on its stack and the thread in `%eax` goes on. The second way is not taken while
preemption is disabled, if the functions leave `g_preemption` alone. -/
theorem exec_interrupt (entry e : BitVec 32) {cur : BitVec 32} (hn : n < intNumInterrupts)
    (hcdecl : Cdecl callee base reserve Kept) (hroom : base + reserve + 68 ≤ σ.sp)
    (hcur : loadl σ.mem sym.gCurrent.toNat = cur)
    (hkept : ∀ i, σ.sp - 64 ≤ i → i < σ.sp → Kept i)
    (hcurrent : ∀ i, sym.gCurrent.toNat ≤ i → i < sym.gCurrent.toNat + 4 →
      Kept i ∧ (i < base ∨ σ.sp ≤ i))
    (hneed : sym.gNeedReschedule.toNat + 4 ≤ sym.gCurrent.toNat ∨
      sym.gCurrent.toNat + 4 ≤ sym.gNeedReschedule.toNat)
    (hneed' : ∀ i, sym.gNeedReschedule.toNat ≤ i → i < sym.gNeedReschedule.toNat + 4 →
      i < base ∨ σ.sp ≤ i)
    (hptr : ∀ i, cur.toNat ≤ i → i < cur.toNat + 4 → Kept i ∧ (i < base ∨ σ.sp ≤ i)) :
    (∃ mem, exec callee 0 (interruptCode sym n) (interrupted σ n entry e) =
        { σ.toRegisters with mem } ∧
      (loadl mem sym.gPreemption.toNat = 0 ∨ loadl mem sym.gNeedReschedule.toNat = 0) ∧
      ∀ i, Kept i → (i < base ∨ σ.sp ≤ i) → mem i = σ.mem i) ∨
    ∃ τ, exec callee 0 (interruptCode sym n) (interrupted σ n entry e) =
        exec callee 0 (switchStack sym ++ returnFromInterrupt) τ ∧
      (∃ ρ, base + reserve ≤ ρ.sp ∧ τ = callee (.inl .threadNextRunnable) ρ) ∧
      ((∀ i, sym.gPreemption.toNat ≤ i → i < sym.gPreemption.toNat + 4 →
        Kept i ∧ (i < base ∨ σ.sp ≤ i)) → loadl σ.mem sym.gPreemption.toNat ≠ 0) ∧
      loadl τ.mem cur.toNat = σ.reg .esp - 64 ∧
      RowAt τ.mem (σ.sp - 64) (interruptContext σ n (errorcodeOf n e)).words ∧
      ∀ i, Kept i → (i < base ∨ σ.sp ≤ i) → (i < cur.toNat ∨ cur.toNat + 4 ≤ i) →
        (i < sym.gNeedReschedule.toNat ∨ sym.gNeedReschedule.toNat + 4 ≤ i) →
        τ.mem i = σ.mem i := by
  let tail := chooseThread sym ++ (switchStack sym ++ returnFromInterrupt)
  obtain ⟨τ₁, hexec₁, hesp₁, -, hrow₁, hmem₁⟩ := exec_enter callee
    (callHandler sym ++ (tests sym ++ tail)) hn entry e (show 64 ≤ σ.sp by omega)
  have hsp₁ : τ₁.sp = σ.sp - 64 := by
    unfold Machine.sp at *
    rw [hesp₁]
    bv_omega
  obtain ⟨τ₂, hexec₂, hesp₂, hmem₂⟩ := exec_callHandler sym (tests sym ++ tail) (σ := τ₁)
    hcdecl (by omega)
  have hsp₂ : τ₂.sp = σ.sp - 64 := (congrArg BitVec.toNat hesp₂).trans hsp₁
  have hcode : interruptCode sym n = (intHandlerStubVector[n]?).getD [] ++
      (threadSaveRegisters ++ (callHandler sym ++ (tests sym ++ tail))) := by
    simp only [interruptCode, intHandleInterrupt, List.append_assoc, tests, tail]
  have hrun : exec callee 0 (interruptCode sym n) (interrupted σ n entry e) =
      exec callee 0 (tests sym ++ tail) τ₂ := by
    rw [hcode, hexec₁, hexec₂]
  have hrow₂ : RowAt τ₂.mem (σ.sp - 64) (interruptContext σ n (errorcodeOf n e)).words := by
    refine hrow₁.congr fun i hle hlt => hmem₂ i (hkept i hle ?_) (.inr (by omega))
    rw [ThreadContext.length_words] at hlt
    omega
  have hkeep₂ : ∀ i, Kept i → (i < base ∨ σ.sp ≤ i) → τ₂.mem i = σ.mem i := by
    intro i hi hout
    rw [hmem₂ i hi (by omega), hmem₁ i (by omega)]
  obtain ⟨eflags, htests⟩ := exec_tests sym callee τ₂
  rw [hrun, htests]
  split
  next hstay =>
    -- the context is still on the stack, and becomes the registers again
    refine .inl ⟨τ₂.mem, ?_, hstay, hkeep₂⟩
    have hesp : τ₂.reg .esp + 64 = σ.reg .esp := by
      rw [hesp₂, hesp₁, BitVec.sub_add_cancel]
    have hbound : σ.sp < 2 ^ 32 := (σ.reg .esp).isLt
    rw [exec_restore (c := interruptContext σ n (errorcodeOf n e))]
    · show ({ (interruptContext σ n (errorcodeOf n e)).resume (τ₂.reg .esp + 64) with
        mem := τ₂.mem } : Machine) = _
      rw [hesp, resume_interruptContext]
    · show RowAt τ₂.mem τ₂.sp _
      rw [hsp₂]
      exact hrow₂
    · show τ₂.sp + 64 < 2 ^ 32
      omega
  next hleave =>
    have hcur₂ : loadl τ₂.mem sym.gCurrent.toNat = cur := by
      rw [← hcur]
      refine loadl_congr fun i hle hlt => ?_
      obtain ⟨hi, hout⟩ := hcurrent i hle hlt
      exact hkeep₂ i hi hout
    have hsp₃ : ({ τ₂ with eflags } : Machine).sp = σ.sp - 64 := hsp₂
    obtain ⟨τ₃, hexec₃, hnext₃, hptr₃, hmem₃⟩ := exec_chooseThread sym
      (switchStack sym ++ returnFromInterrupt) (σ := { τ₂ with eflags }) hcdecl
      (by omega) hcur₂ hneed fun i hle hlt => by
        obtain ⟨hi, hout⟩ := hptr i hle hlt
        exact ⟨hi, by omega⟩
    -- the context stays on the stack of the thread, for the time when it goes on
    refine .inr ⟨τ₃, hexec₃, hnext₃, ?_, ?_, ?_, ?_⟩
    · intro hkeep
      have hload : loadl τ₂.mem sym.gPreemption.toNat = loadl σ.mem sym.gPreemption.toNat := by
        refine loadl_congr fun i hle hlt => ?_
        obtain ⟨hi, hout⟩ := hkeep i hle hlt
        exact hkeep₂ i hi hout
      rw [← hload]
      exact (not_or.mp hleave).1
    · rw [hptr₃]
      exact hesp₂.trans hesp₁
    · refine hrow₂.congr fun i hle hlt => ?_
      rw [ThreadContext.length_words] at hlt
      have hne : i < cur.toNat ∨ cur.toNat + 4 ≤ i := by
        by_contra hin
        have hout := (hptr i (by omega) (by omega)).2
        omega
      have hne' : i < sym.gNeedReschedule.toNat ∨ sym.gNeedReschedule.toNat + 4 ≤ i := by
        by_contra hin
        have hout := hneed' i (by omega) (by omega)
        omega
      exact hmem₃ i (hkept i hle (by omega)) (by omega) hne hne'
    · intro i hi hout hne hne'
      rw [hmem₃ i hi (by omega) hne hne']
      exact hkeep₂ i hi hout

end GeekOS.Cpu
