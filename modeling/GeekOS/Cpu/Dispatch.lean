import GeekOS.Cpu.Descriptors
import GeekOS.Cpu.Interrupts
import GeekOS.Cpu.Irq
import GeekOS.Library.Run

/-!
# From an interrupt to its handler

The tables of `x86_int.c`, and the way of an interrupt through them: the processor finds a gate in
the descriptor table, the gate leads to a stub, and the stub to the handler that has been installed.

* `intInit`, `intInstallHandler`, `irqInstallHandler`: the functions that fill the tables;
* `takeInterrupt`: the processor looks the gate up;
* `takeInterrupt_eq`: the gate of a vector leads to its stub;
* `handler_of_run`: the handler that has been installed last is called, with the context of the
  thread that is interrupted.
-/

namespace GeekOS.Cpu

open X86 TransitionSystem

/-- `INT_HANDLER_STUB_LEN`, to which the stubs are aligned. -/
def intHandlerStubLen : ℕ := 16

/-- Where the tables are. -/
structure Tables where
  sym : Symbols
  /-- `s_idt`. -/
  idt : BitVec 32
  /-- `int_handler_stub_vector`. -/
  stubs : BitVec 32
  /-- `int_unexpected_int_handler`. -/
  unexpected : BitVec 32
  idt_lt : idt.toNat + 8 * intNumInterrupts < 2 ^ 32
  table_lt : sym.gIntHandlerTable.toNat + 4 * intNumInterrupts < 2 ^ 32
  apart : idt.toNat + 8 * intNumInterrupts ≤ sym.gIntHandlerTable.toNat ∨
    sym.gIntHandlerTable.toNat + 4 * intNumInterrupts ≤ idt.toNat

namespace Tables

variable (T : Tables)

/-- The gate of a vector, in memory. -/
def gateWords (i : ℕ) : List (BitVec 32) :=
  (initIntGate (T.stubs + BitVec.ofNat 32 (i * intHandlerStubLen)) 0).words

/-- `int_init`, up to the instruction that loads the register. It fails if the assertion on the
number of stubs does. -/
def intInit (mem : Words.Memory) : Option Words.Memory :=
  let numHandlerStubs := intHandlerStubVector.length * intHandlerStubLen
  if numHandlerStubs / intHandlerStubLen ≠ intNumInterrupts then none
  else
    let mem := storeTable mem T.idt.toNat 8 intNumInterrupts T.gateWords
    some (storeTable mem T.sym.gIntHandlerTable.toNat 4 intNumInterrupts fun _ => [T.unexpected])

/-- The limit and the base that are loaded at the end of `int_init`. -/
def limitAndBase : List (BitVec 16) :=
  [BitVec.ofNat 16 (8 * intNumInterrupts), (T.idt &&& 0xFFFF).setWidth 16,
    (T.idt >>> 16).setWidth 16]

/-- `int_install_handler`. -/
def intInstallHandler (mem : Words.Memory) (intNum : ℤ) (handler : BitVec 32) :
    Option Words.Memory :=
  if 0 ≤ intNum ∧ intNum < intNumInterrupts then
    some (storel mem (T.sym.gIntHandlerTable.toNat + 4 * intNum.toNat) handler)
  else none

/-- `irq_install_handler`. -/
def irqInstallHandler (mem : Words.Memory) (irq : ℤ) (handler : BitVec 32) :
    Option Words.Memory :=
  if ValidIrq irq then T.intInstallHandler mem (firstIrq + irq) handler else none

/-! ## The processor -/

/-- The processor loads the register of the descriptor table. -/
def loadIdtr : List (BitVec 16) → ℕ × BitVec 32
  | [limit, low, high] => (limit.toNat, high ++ low)
  | _ => (0, 0)

/-- The gate of a vector, if the table has it. -/
def gateOf (idtr : ℕ × BitVec 32) (mem : Words.Memory) (n : ℕ) : Option Gate :=
  if 8 * n + 7 ≤ idtr.1 then
    some (.ofWords (loadl mem (idtr.2.toNat + 8 * n)) (loadl mem (idtr.2.toNat + 8 * n + 4)))
  else none

/-- The code at an address among the stubs. -/
def codeAt (entry : BitVec 32) : List (Instr CFunction) :=
  let offset := (entry - T.stubs).toNat
  if offset % intHandlerStubLen = 0 then
    (intHandlerStubVector[offset / intHandlerStubLen]?).getD []
  else []

/-- The processor takes the interrupt `n`: the machine afterwards, and the code that it goes on
with. -/
def takeInterrupt (σ : Machine) (n : ℕ) (e : BitVec 32) : Option (Machine × List (Instr CFunction)) :=
  do
    let gate ← gateOf (loadIdtr T.limitAndBase) σ.mem n
    if gate.present ∧ gate.type = interruptGate32 then
      some (deliver σ gate.offset gate.selector (if pushesErrorCode n then some e else none),
        T.codeAt gate.offset ++ intHandleInterrupt T.sym)
    else none

/-- The bytes of the tables. -/
def Holds (i : ℕ) : Prop :=
  T.idt.toNat ≤ i ∧ i < T.idt.toNat + 8 * intNumInterrupts ∨
    T.sym.gIntHandlerTable.toNat ≤ i ∧ i < T.sym.gIntHandlerTable.toNat + 4 * intNumInterrupts

/-- The tables are in memory, with a handler for each vector. -/
structure Installed (mem : Words.Memory) (handler : ℕ → BitVec 32) : Prop where
  gate : ∀ n < intNumInterrupts, RowAt mem (T.idt.toNat + 8 * n) (T.gateWords n)
  handler : ∀ n < intNumInterrupts,
    loadl mem (T.sym.gIntHandlerTable.toNat + 4 * n) = handler n

variable {T} {mem mem' : Words.Memory} {handler : ℕ → BitVec 32} {σ : Machine} {n : ℕ}

theorem length_gateWords (i : ℕ) : (T.gateWords i).length = 2 := rfl

/-- The tables depend on their own bytes. -/
theorem Installed.congr (h : T.Installed mem handler) (hmem : ∀ i, T.Holds i → mem' i = mem i) :
    T.Installed mem' handler := by
  constructor
  · intro n hn
    refine (h.gate n hn).congr fun i hle hlt => hmem i (.inl ?_)
    rw [length_gateWords] at hlt
    omega
  · intro n hn
    rw [← h.handler n hn]
    exact loadl_congr fun i hle hlt => hmem i (.inr (by omega))

/-- `int_init` does not fail, and each handler is the one for interrupts that are not expected. -/
theorem installed_intInit (mem : Words.Memory) :
    ∃ mem', T.intInit mem = some mem' ∧ T.Installed mem' fun _ => T.unexpected := by
  have hstubs : intHandlerStubVector.length * intHandlerStubLen / intHandlerStubLen =
      intNumInterrupts := by decide
  have hinit : T.intInit mem = some (storeTable (storeTable mem T.idt.toNat 8 intNumInterrupts
      T.gateWords) T.sym.gIntHandlerTable.toNat 4 intNumInterrupts fun _ => [T.unexpected]) := by
    unfold intInit
    rw [if_neg (not_not.mpr hstubs)]
  refine ⟨_, hinit, ?_, ?_⟩
  · intro n hn
    have hapart := T.apart
    have hrow : RowAt (storeTable mem T.idt.toNat 8 intNumInterrupts T.gateWords)
        (T.idt.toNat + 8 * n) (T.gateWords n) :=
      storeTable_row (fun i => le_of_eq rfl) hn
    refine hrow.congr fun i hle hlt => ?_
    rw [length_gateWords] at hlt
    exact storeTable_of_disjoint (fun _ => le_of_eq rfl) (by omega)
  · intro n hn
    exact (storeTable_row (f := fun _ => [T.unexpected]) (fun _ => le_of_eq rfl) hn).1

/-- A handler is installed. -/
theorem Installed.install {intNum : ℤ} {x : BitVec 32} (h : T.Installed mem handler)
    (hcall : T.intInstallHandler mem intNum x = some mem') :
    T.Installed mem' (Function.update handler intNum.toNat x) := by
  rw [intInstallHandler] at hcall
  split at hcall
  next hnum =>
    cases hcall
    have hapart := T.apart
    constructor
    · intro n hn
      exact (h.gate n hn).storel_of_disjoint (by rw [length_gateWords]; omega)
    · intro n hn
      by_cases heq : n = intNum.toNat
      · rw [heq, Function.update_self, loadl_storel_self]
      · rw [Function.update_of_ne heq, loadl_storel_of_disjoint (by omega), h.handler n hn]
  next => cases hcall

/-- The base of the table comes back. -/
theorem loadIdtr_limitAndBase : loadIdtr T.limitAndBase = (8 * intNumInterrupts, T.idt) := by
  have hhalves : (T.idt >>> 16).setWidth 16 = T.idt.extractLsb' 16 16 ∧
      (T.idt &&& 0xFFFF).setWidth 16 = T.idt.extractLsb' 0 16 := setWidth_halves T.idt
  show ((BitVec.ofNat 16 (8 * intNumInterrupts)).toNat,
    (T.idt >>> 16).setWidth 16 ++ (T.idt &&& 0xFFFF).setWidth 16) = _
  rw [hhalves.1, hhalves.2, append_halves]
  rfl

/-- The gate of a vector leads to its stub, and no gate is there for other vectors. -/
theorem takeInterrupt_eq (h : T.Installed σ.mem handler) (n : ℕ) (e : BitVec 32) :
    T.takeInterrupt σ n e =
      if n < intNumInterrupts then
        some (interrupted σ n (T.stubs + BitVec.ofNat 32 (n * intHandlerStubLen)) e,
          interruptCode T.sym n)
      else none := by
  rw [takeInterrupt, loadIdtr_limitAndBase, gateOf]
  by_cases hn : n < intNumInterrupts
  · obtain ⟨hlow, hhigh, -⟩ := h.gate n hn
    have hgate := Gate.ofWords_initIntGate (T.stubs + BitVec.ofNat 32 (n * intHandlerStubLen)) 0
      rfl
    have hlim : 8 * n + 7 ≤ 8 * intNumInterrupts := by omega
    have hoffset : (T.stubs + BitVec.ofNat 32 (n * intHandlerStubLen) - T.stubs).toNat =
        n * intHandlerStubLen := by
      unfold intHandlerStubLen intNumInterrupts at *
      bv_omega
    have hcode : T.codeAt (T.stubs + BitVec.ofNat 32 (n * intHandlerStubLen)) =
        (intHandlerStubVector[n]?).getD [] := by
      rw [codeAt, hoffset, if_pos (Nat.mul_mod_left ..), Nat.mul_div_cancel n (by decide)]
    rw [if_pos hlim, if_pos hn, hlow, hhigh, hgate, Option.bind_eq_bind, Option.bind_some,
      if_pos ⟨rfl, rfl⟩, hcode]
    rfl
  · rw [if_neg (by omega), if_neg hn]
    rfl

/-! ## Runs -/

/-- What happens to the tables. -/
inductive TableEvent
  /-- `int_install_handler`. -/
  | install (intNum : ℤ) (handler : BitVec 32)
  /-- `irq_install_handler`. -/
  | irqInstall (irq : ℤ) (handler : BitVec 32)
  /-- Anything else, which leaves the tables as they are. -/
  | work (mem : Words.Memory)

/-- One step. -/
inductive TableStep (T : Tables) : Words.Memory → TableEvent → Words.Memory → Prop
  | install {mem mem' : Words.Memory} {intNum : ℤ} {handler : BitVec 32}
      (h : T.intInstallHandler mem intNum handler = some mem') :
      TableStep T mem (.install intNum handler) mem'
  | irqInstall {mem mem' : Words.Memory} {irq : ℤ} {handler : BitVec 32}
      (h : T.irqInstallHandler mem irq handler = some mem') :
      TableStep T mem (.irqInstall irq handler) mem'
  | work {mem mem' : Words.Memory} (h : ∀ i, T.Holds i → mem' i = mem i) :
      TableStep T mem (.work mem') mem'

/-- The handler of a vector after an event. -/
def handlerAfter (handler : ℕ → BitVec 32) : TableEvent → ℕ → BitVec 32
  | .install intNum x => Function.update handler intNum.toNat x
  | .irqInstall irq x => Function.update handler (firstIrq + irq).toNat x
  | .work _ => handler

/-- The handlers that have been installed last. -/
def lastHandlers (T : Tables) (es : List TableEvent) : ℕ → BitVec 32 :=
  es.foldl handlerAfter fun _ => T.unexpected

theorem Installed.step {e : TableEvent} (h : T.Installed mem handler)
    (hstep : TableStep T mem e mem') : T.Installed mem' (handlerAfter handler e) := by
  cases hstep with
  | install hcall => exact h.install hcall
  | irqInstall hcall =>
    rw [irqInstallHandler] at hcall
    split at hcall
    next => exact h.install hcall
    next => cases hcall
  | work hmem => exact h.congr hmem

variable {mem₀ mem₁ : Words.Memory} {tr : List (Words.Memory × TableEvent)}

/-- The tables hold the handlers that have been installed last. -/
theorem installed_of_run (h₀ : T.intInit mem₀ = some mem₁) (h : Run (TableStep T) mem₁ tr mem) :
    T.Installed mem (lastHandlers T (tr.map Prod.snd)) := by
  induction h with
  | nil =>
    obtain ⟨mem', heq, hinst⟩ := installed_intInit (T := T) mem₀
    rw [h₀] at heq
    rw [Option.some.inj heq]
    exact hinst
  | snoc _ hstep ih =>
    rw [lastHandlers, List.map_append, List.foldl_append]
    exact ih.step hstep

/-- What is left of `int_handle_interrupt` when the handler has returned. -/
def afterHandler (sym : Symbols) : List (Instr CFunction) :=
  .addl 4 .esp :: (tests sym ++ (chooseThread sym ++ (switchStack sym ++ returnFromInterrupt)))

variable {callee : CFunction ⊕ BitVec 32 → Machine → Machine}

/-- The lower half of a register that `movw` has stored into. -/
theorem setWidth_movw (x : BitVec 32) (v : BitVec 16) :
    ((x &&& 0xffff0000) ||| v.setWidth 32).setWidth 16 = v := by
  ext i hi
  interval_cases i <;> simp

variable (callee) in
/-- The handler that has been installed last for a vector is called, with interrupts disabled, in
the kernel's data segment, and with the address of a context of the thread that is interrupted. -/
theorem handler_of_run (h₀ : T.intInit mem₀ = some mem₁) (h : Run (TableStep T) mem₁ tr σ.mem)
    {n : ℕ} (hn : n < intNumInterrupts) (e : BitVec 32) (hroom : 68 ≤ σ.sp)
    (hstack : T.sym.gIntHandlerTable.toNat + 4 * intNumInterrupts ≤ σ.sp - 68 ∨
      σ.sp ≤ T.sym.gIntHandlerTable.toNat) :
    ∃ σ' code ρ, T.takeInterrupt σ n e = some (σ', code) ∧
      exec callee 0 code σ' = exec callee 0 (afterHandler T.sym)
        (callee (.inr (lastHandlers T (tr.map Prod.snd) n)) ρ) ∧
      ρ.top = σ.reg .esp - 64 ∧
      RowAt ρ.mem (σ.sp - 64) (interruptContext σ n (errorcodeOf n e)).words ∧
      ρ.eflags &&& eflagsIf = 0 ∧ ρ.seg .ds = kernDs ∧ ρ.seg .es = kernDs := by
  have hinst := installed_of_run h₀ h
  generalize lastHandlers T (tr.map Prod.snd) = handler at hinst ⊢
  have htake := takeInterrupt_eq hinst n e
  rw [if_pos hn] at htake
  let rest := tests T.sym ++ (chooseThread T.sym ++ (switchStack T.sym ++ returnFromInterrupt))
  obtain ⟨τ, hexec, hesp, hflags, hrow, hmem⟩ := exec_enter callee
    (callHandler T.sym ++ rest) (σ := σ) hn
    (T.stubs + BitVec.ofNat 32 (n * intHandlerStubLen)) e (by omega)
  have hsp : τ.sp = σ.sp - 64 := by
    unfold Machine.sp at *
    rw [hesp]
    bv_omega
  -- the number of the interrupt, in the context
  have hnum : loadl τ.mem (τ.reg .esp + threadSavedRegLen).toNat = BitVec.ofNat 32 n := by
    have haddr : (τ.reg .esp + threadSavedRegLen).toNat = σ.sp - 64 + 4 * 11 := by
      unfold threadSavedRegLen Machine.sp at *
      rw [hesp]
      bv_omega
    rw [haddr]
    have hwords : (interruptContext σ n (errorcodeOf n e)).words =
        (restored (interruptContext σ n (errorcodeOf n e))).map Prod.snd ++
          [BitVec.ofNat 32 n, errorcodeOf n e, σ.eip, (σ.seg .cs).setWidth 32, σ.eflags] := rfl
    rw [hwords] at hrow
    exact (rowAt_append.mp hrow).2.1
  have hhandler : loadl τ.mem (T.sym.gIntHandlerTable + 4 * BitVec.ofNat 32 n).toNat =
      handler n := by
    have hlt := T.table_lt
    have haddr : (T.sym.gIntHandlerTable + 4 * BitVec.ofNat 32 n).toNat =
        T.sym.gIntHandlerTable.toNat + 4 * n := by
      unfold intNumInterrupts at *
      bv_omega
    rw [haddr, ← hinst.handler n hn]
    exact loadl_congr fun i hle hi => hmem i (by omega)
  -- the machine at the call of the handler
  let ρ := ((callHandler T.sym).take 7).foldl (step callee) τ
  have hρesp : ρ.reg .esp = τ.reg .esp - 4 := rfl
  have hpush : ρ.mem = storel τ.mem (τ.reg .esp - 4).toNat (τ.reg .esp) := rfl
  have hebx : ρ.reg .ebx = handler n := by
    show loadl τ.mem (T.sym.gIntHandlerTable +
      4 * loadl τ.mem (τ.reg .esp + threadSavedRegLen).toNat).toNat = _
    rw [hnum, hhandler]
  -- `movw` stores the selector into the lower half of a register, and from there into `ds` and `es`
  have hdata : ∀ s : BitVec 16, ((s.setWidth 32 &&& 0xffff0000) ||| (((τ.reg .eax &&& 0xffff0000) |||
      ((kernDs.setWidth 32).setWidth 16).setWidth 32).setWidth 16).setWidth 32).setWidth 16 =
        kernDs := by
    intro s
    rw [setWidth_movw, setWidth_movw, ThreadContext.setWidth_selector]
  refine ⟨_, _, ρ, htake, ?_, ?_, ?_, ?_, ?_, ?_⟩
  · have hcode : interruptCode T.sym n = (intHandlerStubVector[n]?).getD [] ++
        (threadSaveRegisters ++ (callHandler T.sym ++ rest)) := by
      simp only [interruptCode, intHandleInterrupt, List.append_assoc, tests, rest]
    rw [hcode, hexec, ← hebx]
    rfl
  · rw [Machine.top, hρesp, hpush, loadl_storel_self, hesp]
  · rw [hpush]
    refine hrow.storel_of_disjoint (.inl ?_)
    unfold Machine.sp at *
    bv_omega
  · show τ.eflags &&& eflagsIf = 0
    have hmask : ~~~gateMask &&& eflagsIf = 0 := by decide
    rw [hflags, BitVec.and_assoc, hmask]
    exact BitVec.and_zero
  · exact hdata (τ.seg .ds)
  · exact hdata (τ.seg .es)

/-- Some tables. -/
def someTables : Tables where
  sym := ⟨0x100, 0x104, 0x108, 0x200, 0x5000⟩
  idt := 0x1000
  stubs := 0x8000
  unexpected := 0x9000
  idt_lt := by decide
  table_lt := by decide
  apart := by decide

/-- A handler is installed for the keyboard, and the keyboard interrupts: it is this handler that is
called, with the address of the context. -/
theorem handler_someTables :
    ∃ mem mem', someTables.intInit (fun _ => 0) = some mem ∧
      someTables.irqInstallHandler mem 1 0x9100 = some mem' ∧
      ∀ callee, ∃ σ' code ρ, someTables.takeInterrupt
          ⟨⟨fun r => if r = .esp then 0x7000 else 0, fun _ => kernDs, 0x202, 0x6000⟩, mem'⟩ 33 0 =
            some (σ', code) ∧
        exec callee 0 code σ' =
          exec callee 0 (afterHandler someTables.sym) (callee (.inr 0x9100) ρ) ∧
        ρ.top = 0x6fc0 := by
  obtain ⟨mem, hinit, -⟩ := installed_intInit (T := someTables) fun _ => 0
  let σ : Machine := ⟨⟨fun r => if r = .esp then 0x7000 else 0, fun _ => kernDs, 0x202, 0x6000⟩,
    storel mem (someTables.sym.gIntHandlerTable.toNat + 4 * 33) 0x9100⟩
  have hinstall : someTables.irqInstallHandler mem 1 0x9100 = some σ.mem := rfl
  have hsp : σ.sp = 0x7000 := rfl
  refine ⟨mem, σ.mem, hinit, hinstall, fun callee => ?_⟩
  obtain ⟨σ', code, ρ, htake, hexec, htop, -⟩ := handler_of_run callee (σ := σ) hinit
    (.snoc (.nil mem) (.irqInstall hinstall)) (n := 33) (by decide) 0 (by rw [hsp]; decide)
    (by rw [hsp]; decide)
  have hesp : σ.reg .esp = 0x7000 := rfl
  rw [hesp] at htop
  exact ⟨σ', code, ρ, htake, hexec, htop⟩

end Tables

end GeekOS.Cpu
