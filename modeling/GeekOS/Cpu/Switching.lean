import GeekOS.Cpu.Bootstrap
import GeekOS.Cpu.Interrupts
import GeekOS.Library.Run

/-!
# Switching between threads

All threads on one processor, with their stacks in one memory. A thread is suspended when it calls
`thread_switch_to` or when an interrupt puts another thread in its place, and goes on when one of
these gives the processor back to it.

* `Layout`: where the stacks, the thread structures and the variables are;
* `threadBootstrap`: the stack of a thread that has not run yet;
* `Saved`: a suspended thread in memory;
* `resumes_of_run`: whatever happens in between, a thread goes on with the registers and with the
  stack that it had, and an interrupt changes nothing of the thread that it comes to.
-/

namespace GeekOS.Cpu

open X86 TransitionSystem

/-- Words apart from each other, and from a row of bytes. -/
def Apart (a b : BitVec 32) : Prop := a.toNat + 4 ≤ b.toNat ∨ b.toNat + 4 ≤ a.toNat

/-- Where everything is. -/
structure Layout (T : Type) where
  sym : Symbols
  /-- The address of the `struct thread`, whose first field is `stack_ptr`. -/
  thread : T → BitVec 32
  /-- `thread->stack`. -/
  stack : T → ℕ
  /-- No stack goes beyond the end of the memory. -/
  stack_lt : ∀ t, stack t + threadStackSize < 2 ^ 32
  disjoint : ∀ t u, t ≠ u →
    stack t + threadStackSize ≤ stack u ∨ stack u + threadStackSize ≤ stack t
  threads : ∀ t u, t ≠ u → Apart (thread t) (thread u)
  outside : ∀ t u, (thread t).toNat + 4 ≤ stack u ∨ stack u + threadStackSize ≤ (thread t).toNat
  /-- The two variables that the routines store into are apart from all that. -/
  current : ∀ t, Apart sym.gCurrent (thread t) ∧
    (sym.gCurrent.toNat + 4 ≤ stack t ∨ stack t + threadStackSize ≤ sym.gCurrent.toNat)
  need : ∀ t, Apart sym.gNeedReschedule (thread t) ∧
    (sym.gNeedReschedule.toNat + 4 ≤ stack t ∨
      stack t + threadStackSize ≤ sym.gNeedReschedule.toNat)
  gVars : Apart sym.gNeedReschedule sym.gCurrent
  preemption : ∀ t, sym.gPreemption.toNat + 4 ≤ stack t ∨
    stack t + threadStackSize ≤ sym.gPreemption.toNat

/-- How a suspended thread goes on: its registers, and its part of the memory. -/
structure View where
  regs : Registers
  stack : Words.Memory

namespace Layout

variable {T : Type} (L : Layout T)

/-- Where the stack of a thread ends. -/
def top (t : T) : ℕ := L.stack t + threadStackSize

/-- The bytes that a suspended thread needs: its `stack_ptr`, and its stack from there on. -/
def Held (mem : Words.Memory) (t : T) (i : ℕ) : Prop :=
  (L.thread t).toNat ≤ i ∧ i < (L.thread t).toNat + 4 ∨
    (loadl mem (L.thread t).toNat).toNat ≤ i ∧ i < L.top t

/-- A suspended thread in memory: `stack_ptr` leads to a context on its stack. -/
def Saved (mem : Words.Memory) (t : T) (v : View) : Prop :=
  ∃ (sp : BitVec 32) (c : ThreadContext), loadl mem (L.thread t).toNat = sp ∧
    L.stack t ≤ sp.toNat ∧ sp.toNat + 64 ≤ L.top t ∧
    RowAt mem sp.toNat c.words ∧ c.resume (sp + 64) = v.regs ∧
    ∀ i, sp.toNat + 64 ≤ i → i < L.top t → mem i = v.stack i

variable {L} {mem mem' : Words.Memory} {t u : T} {v : View} {i : ℕ} {σ τ : Machine}
  {callee : CFunction ⊕ BitVec 32 → Machine → Machine}

/-- It depends on the bytes that the thread needs. -/
theorem Saved.congr (h : L.Saved mem t v) (hmem : ∀ i, L.Held mem t i → mem' i = mem i) :
    L.Saved mem' t v := by
  obtain ⟨sp, c, hsp, hlo, hhi, hrow, hregs, hstack⟩ := h
  refine ⟨sp, c, ?_, hlo, hhi, ?_, hregs, ?_⟩
  · rw [← hsp]
    exact loadl_congr fun i hle hlt => hmem i (.inl ⟨hle, hlt⟩)
  · refine hrow.congr fun i hle hlt => hmem i (.inr ⟨by rwa [hsp], ?_⟩)
    rw [ThreadContext.length_words] at hlt
    omega
  · intro i hle hlt
    rw [← hstack i hle hlt]
    exact hmem i (.inr ⟨by rw [hsp]; omega, hlt⟩)

/-- The bytes of a suspended thread are apart from the stack of another one, and from the
variables. -/
theorem Saved.held (h : L.Saved mem t v) (hi : L.Held mem t i) :
    (∀ u, u ≠ t → i < L.stack u ∨ L.top u ≤ i) ∧
      (i < L.sym.gCurrent.toNat ∨ L.sym.gCurrent.toNat + 4 ≤ i) ∧
      (i < L.sym.gNeedReschedule.toNat ∨ L.sym.gNeedReschedule.toNat + 4 ≤ i) ∧
      ∀ u, u ≠ t → i < (L.thread u).toNat ∨ (L.thread u).toNat + 4 ≤ i := by
  obtain ⟨sp, c, hsp, hlo, -, -⟩ := h
  have hcurrent := L.current t
  have hneed := L.need t
  unfold Apart at hcurrent hneed
  unfold top at *
  rcases hi with ⟨hle, hlt⟩ | ⟨hle, hlt⟩
  -- a byte of `stack_ptr`
  · refine ⟨fun u _ => ?_, by omega, by omega, fun u hut => ?_⟩
    · have houtside := L.outside t u
      unfold threadStackSize at *
      omega
    · have hthreads := L.threads u t hut
      unfold Apart at hthreads
      omega
  -- a byte of the stack
  · rw [hsp] at hle
    unfold top at hlt
    refine ⟨fun u hut => ?_, by omega, by omega, fun u _ => ?_⟩
    · have hdisjoint := L.disjoint u t hut
      omega
    · have houtside := L.outside u t
      omega

variable (callee) in
/-- The thread in `%eax` goes on as it was suspended. -/
theorem exec_saved (h : L.Saved τ.mem u v) (heax : τ.reg .eax = L.thread u) :
    ∃ mem, exec callee 0 (switchStack L.sym ++ returnFromInterrupt) τ = { v.regs with mem } ∧
      mem = storel τ.mem L.sym.gCurrent.toNat (L.thread u) ∧
      ∀ i, (v.regs.reg .esp).toNat ≤ i → i < L.top u → mem i = v.stack i := by
  have hheld := fun i => h.held (i := i)
  obtain ⟨sp, c, hsp, hlo, hhi, hrow, hregs, hstack⟩ := h
  have hlt := L.stack_lt u
  have hcurrent := (L.current u).2
  unfold top threadStackSize at *
  refine ⟨_, ?_, rfl, ?_⟩
  · have hptr : loadl τ.mem (τ.reg .eax).toNat = sp := by rwa [heax]
    rw [exec_resume hptr hrow (by omega) (by omega), hregs, heax]
  · intro i hle hi
    have hesp : (v.regs.reg .esp).toNat = sp.toNat + 64 := by
      rw [← hregs]
      show (sp + 64).toNat = _
      bv_omega
    rw [← hstack i (by omega) hi]
    exact storel_of_disjoint (hheld i (.inr ⟨by rw [hsp]; omega, hi⟩)).2.1

/-! ## The system -/

end Layout

/-- The machine, the thread that runs, and the other ones. -/
structure State (T : Type) where
  machine : Machine
  current : T
  /-- History: how the threads that are suspended go on. -/
  suspended : T → Option View

/-- What happens next. -/
inductive Event (T : Type)
  /-- The current thread runs, up to another state of the machine. -/
  | work (σ : Machine)
  /-- It calls `thread_switch_to`, with interrupts disabled. -/
  | switchTo (u : T)
  /-- An interrupt comes. -/
  | interrupt (n : ℕ) (entry errorcode : BitVec 32)
  /-- `thread_bootstrap` is called for a new thread. -/
  | bootstrap (u : T) (startFunc arg : BitVec 32)
  /-- A thread is destroyed. -/
  | destroy (u : T)

namespace State

variable {T : Type} [DecidableEq T] (L : Layout T) (s : State T)

omit [DecidableEq T] in
/-- The bytes that no code but the routines stores into. -/
def Private (i : ℕ) : Prop :=
  L.sym.gCurrent.toNat ≤ i ∧ i < L.sym.gCurrent.toNat + 4 ∨
    ∃ u v, s.suspended u = some v ∧ L.Held s.machine.mem u i

omit [DecidableEq T] in
/-- The bytes that the functions called in an interrupt leave alone: those, and what belongs to the
thread that has been interrupted. -/
def Kept (i : ℕ) : Prop :=
  s.Private L i ∨ (L.thread s.current).toNat ≤ i ∧ i < (L.thread s.current).toNat + 4 ∨
    L.stack s.current ≤ i ∧ i < L.top s.current

omit [DecidableEq T] in
/-- The functions called in an interrupt keep to the conventions of the compiler, and the scheduler
chooses a thread that is suspended, or the one that has just been. -/
structure Contract (callee : CFunction ⊕ BitVec 32 → Machine → Machine) (reserve : ℕ) : Prop where
  cdecl : Cdecl callee (L.stack s.current) reserve (s.Kept L)
  next : ∀ ρ, L.stack s.current + reserve ≤ ρ.sp → ∃ u, (u = s.current ∨ (s.suspended u).isSome) ∧
    (callee (.inl .threadNextRunnable) ρ).reg .eax = L.thread u

/-- How the current thread goes on when it is suspended now. -/
def suspend (v : View) (u : T) : Option View := Function.update s.suspended s.current (some v) u

/-- The thread `u` takes over. -/
def handOver (v : View) (u : T) (σ : Machine) : State T :=
  ⟨σ, u, Function.update (s.suspend v) u none⟩

/-- How the caller of `thread_switch_to` goes on: at the return address, which is off the stack,
with the flags that the routine has saved. -/
def callerView : View where
  regs := { s.machine.toRegisters with
    reg := Function.update s.machine.reg .esp (s.machine.reg .esp + 4)
    seg := Function.update s.machine.seg .cs kernCs
    eflags := addFlags s.machine.eflags (s.machine.reg .esp - 4) 8
    eip := s.machine.top }
  stack := s.machine.mem

/-- How a thread that is interrupted goes on: as it was. -/
def interruptedView : View := ⟨s.machine.toRegisters, s.machine.mem⟩

omit [DecidableEq T] in
/-- What `thread_bootstrap` makes of the memory. -/
def booted (u : T) (startFunc arg : BitVec 32) : Words.Memory :=
  threadBootstrap L.sym.threadRun s.machine.mem (L.thread u) (BitVec.ofNat 32 (L.stack u))
    startFunc arg

omit [DecidableEq T] in
/-- How a new thread starts: at `thread_run`, with all interrupts disabled. -/
def bootView (u : T) (startFunc arg : BitVec 32) : View where
  regs := (bootContext L.sym.threadRun).resume (BitVec.ofNat 32 (L.top u - 12))
  stack := s.booted L u startFunc arg

variable (callee : CFunction ⊕ BitVec 32 → Machine → Machine) (reserve : ℕ) in
/-- One step. -/
inductive Step : State T → Event T → State T → Prop
  | work {s : State T} {σ : Machine} (h : ∀ i, s.Private L i → σ.mem i = s.machine.mem i) :
      Step s (.work σ) { s with machine := σ }
  | switchTo {s : State T} {u : T} {ret : BitVec 32}
      (hatomic : s.machine.eflags &&& eflagsIf = 0)
      (hrow : RowAt s.machine.mem s.machine.sp [ret, L.thread u])
      (hlo : L.stack s.current + 60 ≤ s.machine.sp) (hhi : s.machine.sp + 8 ≤ L.top s.current)
      (hu : u = s.current ∨ (s.suspended u).isSome) :
      Step s (.switchTo u) (s.handOver s.callerView u
        (exec callee 0 (threadSwitchTo L.sym) s.machine))
  | interrupt {s : State T} {u : T} {n : ℕ} {entry e : BitVec 32} {σ : Machine}
      (hn : n < intNumInterrupts) (hlo : L.stack s.current + reserve + 68 ≤ s.machine.sp)
      (hhi : s.machine.sp ≤ L.top s.current) (hcontract : s.Contract L callee reserve)
      (hσ : exec callee 0 (interruptCode L.sym n) (interrupted s.machine n entry e) = σ)
      (hu : loadl σ.mem L.sym.gCurrent.toNat = L.thread u) :
      Step s (.interrupt n entry e) (s.handOver s.interruptedView u σ)
  | bootstrap {s : State T} {u : T} {startFunc arg : BitVec 32} (hne : u ≠ s.current)
      (hnew : s.suspended u = none) :
      Step s (.bootstrap u startFunc arg)
        { s with
          machine := { s.machine with mem := s.booted L u startFunc arg }
          suspended := Function.update s.suspended u (some (s.bootView L u startFunc arg)) }
  | destroy {s : State T} {u : T} :
      Step s (.destroy u) { s with suspended := Function.update s.suspended u none }

/-- How the thread goes on that an event suspends. -/
def viewAt : Event T → View
  | .switchTo _ => s.callerView
  | _ => s.interruptedView

omit [DecidableEq T] in
/-- A thread runs as it was suspended: with its registers, and with its stack. -/
def RunsAs (v : View) : Prop :=
  s.machine.toRegisters = v.regs ∧
    ∀ i, (v.regs.reg .esp).toNat ≤ i → i < L.top s.current → s.machine.mem i = v.stack i

/-- The invariant. -/
structure Inv : Prop where
  current : loadl s.machine.mem L.sym.gCurrent.toNat = L.thread s.current
  running : s.suspended s.current = none
  saved : ∀ u v, s.suspended u = some v → L.Saved s.machine.mem u v

variable {L} {s} {s' : State T} {e : Event T} {u t : T} {v w : View} {σ τ : Machine}
  {callee : CFunction ⊕ BitVec 32 → Machine → Machine} {reserve : ℕ}

omit [DecidableEq T] in
theorem thread_inj (h : L.thread t = L.thread u) : t = u := by
  by_contra hne
  have hthreads := L.threads t u hne
  rw [h] at hthreads
  unfold Apart at hthreads
  omega

/-- When a thread is taken off, those that are suspended are other ones. -/
theorem of_update_none {f : T → Option View} (h : Function.update f u none t = some v) :
    t ≠ u ∧ f t = some v := by
  by_cases htu : t = u
  · rw [htu, Function.update_self] at h
    cases h
  · rw [Function.update_of_ne htu] at h
    exact ⟨htu, h⟩

omit [DecidableEq T] in
/-- The current thread is not suspended. -/
theorem Inv.ne_current (hs : s.Inv L) (ht : s.suspended t = some v) : t ≠ s.current := by
  rintro rfl
  rw [hs.running] at ht
  cases ht

variable (callee) in
/-- When all threads that are suspended are in memory, one of them takes over. -/
theorem inv_handOver (hsaved : ∀ u v, s.suspend w u = some v → L.Saved τ.mem u v)
    (hv : s.suspend w u = some v) (heax : τ.reg .eax = L.thread u) :
    (s.handOver w u (exec callee 0 (switchStack L.sym ++ returnFromInterrupt) τ)).Inv L ∧
      (s.handOver w u (exec callee 0 (switchStack L.sym ++ returnFromInterrupt) τ)).RunsAs L v := by
  obtain ⟨mem, hexec, hmem, hstack⟩ := Layout.exec_saved callee (hsaved u v hv) heax
  rw [hexec]
  refine ⟨⟨?_, Function.update_self .., ?_⟩, rfl, hstack⟩
  · show loadl mem _ = _
    rw [hmem, loadl_storel_self]
    rfl
  · intro t v' ht
    obtain ⟨-, ht⟩ := of_update_none ht
    -- the routine stores into `g_current` only, which is apart from what the others need
    refine (hsaved t v' ht).congr fun i hi => ?_
    show mem i = _
    rw [hmem]
    exact storel_of_disjoint ((hsaved t v' ht).held hi).2.1

theorem exists_suspend (hu : u = s.current ∨ (s.suspended u).isSome) :
    ∃ v, s.suspend w u = some v := by
  by_cases hcur : u = s.current
  · rw [hcur]
    exact ⟨w, Function.update_self ..⟩
  · obtain ⟨v, hv⟩ := Option.isSome_iff_exists.mp (hu.resolve_left hcur)
    exact ⟨v, (Function.update_of_ne hcur ..).trans hv⟩

/-- The suspended threads and the one that is about to be suspended, in the memory that the routine
leaves. -/
theorem Inv.saved_suspend (hs : s.Inv L) {mem : Words.Memory} (hself : L.Saved mem s.current w)
    (hmem : ∀ i, s.Private L i → (i < L.sym.gCurrent.toNat ∨ L.sym.gCurrent.toNat + 4 ≤ i) →
      (i < L.stack s.current ∨ L.top s.current ≤ i) →
      (i < (L.thread s.current).toNat ∨ (L.thread s.current).toNat + 4 ≤ i) →
      (i < L.sym.gNeedReschedule.toNat ∨ L.sym.gNeedReschedule.toNat + 4 ≤ i) →
      mem i = s.machine.mem i) (hu : s.suspend w u = some v) : L.Saved mem u v := by
  by_cases hcur : u = s.current
  · subst hcur
    rw [suspend, Function.update_self, Option.some.injEq] at hu
    rwa [← hu]
  · rw [suspend, Function.update_of_ne hcur] at hu
    have hsaved := hs.saved u v hu
    refine hsaved.congr fun i hi => ?_
    obtain ⟨hstack, hcurrent, hneed, hthread⟩ := hsaved.held hi
    exact hmem i (.inr ⟨u, v, hu, hi⟩) hcurrent (hstack _ (Ne.symm hcur)) (hthread _ (Ne.symm hcur))
      hneed

/-- `thread_switch_to`. -/
theorem Inv.switchTo {ret : BitVec 32} (hs : s.Inv L)
    (hrow : RowAt s.machine.mem s.machine.sp [ret, L.thread u])
    (hlo : L.stack s.current + 60 ≤ s.machine.sp) (hhi : s.machine.sp + 8 ≤ L.top s.current)
    (hv : s.suspend s.callerView u = some v) :
    (s.handOver s.callerView u (exec callee 0 (threadSwitchTo L.sym) s.machine)).Inv L ∧
      (s.handOver s.callerView u
        (exec callee 0 (threadSwitchTo L.sym) s.machine)).RunsAs L v := by
  have hlt := L.stack_lt s.current
  have hcurrent := (L.current s.current).2
  have houtside := L.outside s.current s.current
  unfold Layout.top at hhi
  unfold threadStackSize at *
  obtain ⟨τ, hexec, heax, hcontext, hptr, hmem⟩ := exec_suspend callee hrow
    (by omega) (by omega) (by omega) hs.current (by omega)
  rw [hexec]
  have hesp : (s.machine.reg .esp - 60).toNat = s.machine.sp - 60 := by
    unfold Machine.sp at *
    bv_omega
  -- the caller has its context on the stack, and nothing but that and its `stack_ptr` is stored
  refine inv_handOver callee (fun t v' ht => hs.saved_suspend ?_ ?_ ht) hv heax
  · refine ⟨_, callerContext s.machine ret, hptr, by omega, ?_, ?_, ?_, ?_⟩
    · unfold Layout.top threadStackSize
      omega
    · rw [hesp]
      exact hcontext
    · have hret : ret = s.machine.top := hrow.1.symm
      have hup : s.machine.reg .esp - 60 + 64 = s.machine.reg .esp + 4 := by bv_omega
      rw [callerContext, ThreadContext.resume_ofRegisters, hup, hret]
      rfl
    · intro i hle hi
      unfold Layout.top threadStackSize at hi
      exact hmem i (by omega) (by omega)
  · intro i _ _ hstack hthread _
    unfold Layout.top threadStackSize at hstack
    exact hmem i (by omega) hthread

/-- An interrupt. -/
theorem Inv.interrupt {n : ℕ} (entry errorcode : BitVec 32) (hs : s.Inv L)
    (hn : n < intNumInterrupts) (hlo : L.stack s.current + reserve + 68 ≤ s.machine.sp)
    (hhi : s.machine.sp ≤ L.top s.current) (hcontract : s.Contract L callee reserve)
    (hσ : exec callee 0 (interruptCode L.sym n) (interrupted s.machine n entry errorcode) = σ) :
    ∃ u v, s.suspend s.interruptedView u = some v ∧
      loadl σ.mem L.sym.gCurrent.toNat = L.thread u ∧
      (s.handOver s.interruptedView u σ).Inv L ∧
      (s.handOver s.interruptedView u σ).RunsAs L v := by
  have hcurrent := (L.current s.current).2
  have hneed := (L.need s.current).2
  have houtside := L.outside s.current s.current
  have hvars := L.gVars
  have hlt := L.stack_lt s.current
  unfold Layout.top Apart threadStackSize at *
  -- what the routine and its callees leave alone contains all that suspended threads need
  have hprivate : ∀ i, s.Private L i → s.Kept L i := fun i => .inl
  rcases exec_interrupt entry errorcode hn hcontract.cdecl hlo hs.current
    (fun i hle hi => .inr (.inr ⟨by omega, by unfold Layout.top threadStackSize; omega⟩))
    (fun i hle hi => ⟨.inl (.inl ⟨hle, hi⟩), by omega⟩) hvars (fun i hle hi => by omega)
    (fun i hle hi => ⟨.inr (.inl ⟨hle, hi⟩), by omega⟩) with
    ⟨mem, hexec, -, hmem⟩ | ⟨τ, hexec, ⟨ρ, hρ, hτ⟩, -, hptr, hrow, hmem⟩
  · -- the thread goes on
    rw [hexec] at hσ
    subst hσ
    have hload : loadl mem L.sym.gCurrent.toNat = L.thread s.current := by
      rw [← hs.current]
      exact loadl_congr fun i hle hi => hmem i (.inl (.inl ⟨hle, hi⟩)) (by omega)
    refine ⟨s.current, s.interruptedView, Function.update_self .., hload,
      ⟨hload, Function.update_self .., ?_⟩, rfl, ?_⟩
    · intro t v ht
      obtain ⟨hne, ht⟩ := of_update_none ht
      rw [suspend, Function.update_of_ne hne] at ht
      have hsaved := hs.saved t v ht
      refine hsaved.congr fun i hi => hmem i (.inl (.inr ⟨t, v, ht, hi⟩)) ?_
      have hstack := (hsaved.held hi).1 s.current (Ne.symm hne)
      unfold Layout.top threadStackSize at hstack
      omega
    · intro i hle hi
      have hle : s.machine.sp ≤ i := hle
      exact hmem i (.inr (.inr ⟨by omega, hi⟩)) (.inr hle)
  · -- another one takes over
    obtain ⟨t, ht, heax⟩ := hcontract.next ρ hρ
    rw [← hτ] at heax
    have hesp : (s.machine.reg .esp - 64).toNat = s.machine.sp - 64 := by
      unfold Machine.sp at *
      bv_omega
    have hself : L.Saved τ.mem s.current s.interruptedView := by
      refine ⟨_, interruptContext s.machine n (errorcodeOf n errorcode), hptr, by omega, ?_, ?_,
        ?_, ?_⟩
      · unfold Layout.top threadStackSize
        omega
      · rw [hesp]
        exact hrow
      · rw [BitVec.sub_add_cancel]
        exact resume_interruptContext _
      · intro i hle hi
        unfold Layout.top threadStackSize at hi
        exact hmem i (.inr (.inr ⟨by omega, hi⟩)) (by omega) (by omega) (by omega)
    obtain ⟨v, hv⟩ := exists_suspend (w := s.interruptedView) ht
    have hover := inv_handOver callee (fun x v' hx => hs.saved_suspend hself ?_ hx) hv
      heax
    · rw [← hexec, hσ] at hover
      exact ⟨t, v, hv, hover.1.current, hover⟩
    · intro i hi _ hstack hthread hneed
      unfold Layout.top threadStackSize at hstack
      exact hmem i (hprivate i hi) (by omega) hthread hneed

/-- A new thread. -/
theorem Inv.bootstrap {startFunc arg : BitVec 32} (hs : s.Inv L) (hne : u ≠ s.current) :
    State.Inv L
      { s with
        machine := { s.machine with mem := s.booted L u startFunc arg }
        suspended := Function.update s.suspended u (some (s.bootView L u startFunc arg)) } := by
  have hlt := L.stack_lt u
  have hstack : (BitVec.ofNat 32 (L.stack u)).toNat = L.stack u := by
    rw [BitVec.toNat_ofNat]
    exact Nat.mod_eq_of_lt (by omega)
  have hcurrent := L.current u
  have hroom : 76 ≤ L.top u := by
    unfold Layout.top threadStackSize
    omega
  obtain ⟨hptr, hrow, hmem⟩ := threadBootstrap_row s.machine.mem (L.thread u)
    L.sym.threadRun (BitVec.ofNat 32 (L.stack u)) startFunc arg (by rw [hstack]) hlt
    (by rw [hstack]; exact L.outside u u)
  -- only the new thread's `stack_ptr` and stack are stored into
  have hkeep : ∀ i, (i < (L.thread u).toNat ∨ (L.thread u).toNat + 4 ≤ i) →
      (i < L.stack u ∨ L.top u ≤ i) → s.booted L u startFunc arg i = s.machine.mem i := by
    intro i hi hi'
    unfold Layout.top threadStackSize at hi'
    exact hmem i hi (by unfold threadStackSize; omega)
  have hsp : (BitVec.ofNat 32 (L.top u - 76)).toNat = L.top u - 76 := by
    rw [BitVec.toNat_ofNat]
    exact Nat.mod_eq_of_lt (by unfold Layout.top; omega)
  refine ⟨?_, ?_, ?_⟩
  · show loadl (s.booted L u startFunc arg) _ = _
    unfold Apart at hcurrent
    rw [← hs.current]
    refine loadl_congr fun i hle hi => hkeep i (by omega) ?_
    unfold Layout.top
    omega
  · exact (Function.update_of_ne hne.symm ..).trans hs.running
  · intro t v ht
    by_cases htu : t = u
    · subst htu
      have ht : Function.update s.suspended t (some (s.bootView L t startFunc arg)) t = some v := ht
      rw [Function.update_self, Option.some.injEq] at ht
      subst ht
      refine ⟨_, bootContext L.sym.threadRun, hptr, ?_, ?_, ?_, ?_, fun i _ _ => rfl⟩
      · show L.stack t ≤ (BitVec.ofNat 32 (L.top t - 76)).toNat
        rw [hsp]
        unfold Layout.top threadStackSize
        omega
      · show (BitVec.ofNat 32 (L.top t - 76)).toNat + 64 ≤ _
        rw [hsp]
        omega
      · show RowAt _ (BitVec.ofNat 32 (L.top t - 76)).toNat _
        rw [hsp]
        exact (rowAt_append.mp hrow).1
      · have hup : BitVec.ofNat 32 (L.top t - 76) + 64 = BitVec.ofNat 32 (L.top t - 12) := by
          have hsum : L.top t - 12 = L.top t - 76 + 64 := by omega
          rw [hsum]
          exact (BitVec.ofNat_add ..).symm
        exact congrArg _ hup
    · have ht : Function.update s.suspended u (some (s.bootView L u startFunc arg)) t = some v := ht
      rw [Function.update_of_ne htu] at ht
      have hsaved := hs.saved t v ht
      refine hsaved.congr fun i hi => ?_
      obtain ⟨hout, -, -, hthread⟩ := hsaved.held hi
      exact hkeep i (hthread u (Ne.symm htu)) (hout u (Ne.symm htu))

/-- Every step keeps the invariant. -/
theorem Inv.step (hs : s.Inv L) (h : Step L callee reserve s e s') : s'.Inv L := by
  cases h with
  | work hσ =>
    refine ⟨?_, hs.running, fun u v hu => ?_⟩
    · rw [← hs.current]
      exact loadl_congr fun i hle hi => hσ i (.inl ⟨hle, hi⟩)
    · exact (hs.saved u v hu).congr fun i hi => hσ i (.inr ⟨u, v, hu, hi⟩)
  | switchTo _ hrow hlo hhi hu =>
    obtain ⟨v, hv⟩ := exists_suspend (w := s.callerView) hu
    exact (hs.switchTo hrow hlo hhi hv).1
  | interrupt hn hlo hhi hcontract hσ hu =>
    obtain ⟨u', v, -, hu', hinv, -⟩ := hs.interrupt _ _ hn hlo hhi hcontract hσ
    rwa [thread_inj (hu.symm.trans hu')]
  | bootstrap hne => exact hs.bootstrap hne
  | @destroy u =>
    refine ⟨hs.current, ?_, fun t v ht => hs.saved t v ?_⟩
    · show Function.update s.suspended u none s.current = none
      by_cases hcur : s.current = u
      · rw [hcur]
        exact Function.update_self ..
      · rw [Function.update_of_ne hcur]
        exact hs.running
    · exact (of_update_none ht).2

/-- A thread that is suspended and not destroyed stays suspended, or it takes over. -/
theorem Inv.suspended_of_step (hs : s.Inv L) (h : Step L callee reserve s e s')
    (ht : s.suspended t = some v) (hlive : e ≠ .destroy t) (hne : s'.current ≠ t) :
    s'.suspended t = some v := by
  have hcur := hs.ne_current ht
  have hover : ∀ w u σ, u ≠ t → (s.handOver w u σ).suspended t = some v := by
    intro w u σ hu
    show Function.update (s.suspend w) u none t = _
    rw [Function.update_of_ne hu.symm, suspend, Function.update_of_ne hcur, ht]
  cases h with
  | work => exact ht
  | switchTo | interrupt => exact hover _ _ _ hne
  | @bootstrap u _ _ _ hnew =>
    have htu : t ≠ u := by
      rintro rfl
      rw [hnew] at ht
      cases ht
    exact (Function.update_of_ne htu ..).trans ht
  | @destroy u =>
    have htu : t ≠ u := by
      rintro rfl
      exact hlive rfl
    exact (Function.update_of_ne htu ..).trans ht

/-- When a thread takes over that was suspended, it runs as it was then. -/
theorem Inv.runsAs_of_step (hs : s.Inv L) (h : Step L callee reserve s e s')
    (ht : s.suspended t = some v) (hcur : s'.current = t) : s'.RunsAs L v := by
  have hne := hs.ne_current ht
  have hsuspend : ∀ w, s.suspend w t = some v := by
    intro w
    rw [suspend, Function.update_of_ne hne, ht]
  cases h with
  | work | bootstrap | destroy => exact absurd hcur.symm hne
  | switchTo _ hrow hlo hhi =>
    obtain rfl : _ = t := hcur
    exact (hs.switchTo hrow hlo hhi (hsuspend _)).2
  | interrupt hn hlo hhi hcontract hσ hu =>
    obtain rfl : _ = t := hcur
    obtain ⟨u', w, hw, hu', -, hruns⟩ := hs.interrupt _ _ hn hlo hhi hcontract hσ
    obtain rfl := thread_inj (hu.symm.trans hu')
    have hv : some v = some w := (hsuspend s.interruptedView).symm.trans hw
    rwa [Option.some.inj hv]

omit [DecidableEq T] in
/-- At the start, one thread runs, and no other one is there. -/
structure Initial (L : Layout T) (s : State T) : Prop where
  current : loadl s.machine.mem L.sym.gCurrent.toNat = L.thread s.current
  suspended : ∀ u, s.suspended u = none

variable {s₀ s₁ s₂ s₃ : State T} {tr₀ tr : List (State T × Event T)} {e' : Event T}

theorem inv_of_run (h₀ : s₀.Initial L) (h : Run (Step L callee reserve) s₀ tr s) : s.Inv L := by
  refine h.invariant ⟨h₀.current, h₀.suspended _, fun u v hu => ?_⟩ fun s e s' hs => hs.step
  rw [h₀.suspended] at hu
  cases hu

/-- In the runs in which a suspended thread does not take over it stays suspended, and then it runs as
it was. -/
theorem Inv.runsAs_of_run (hs : s.Inv L) (ht : s.suspended t = some v)
    (h : Run (Step L callee reserve) s tr s₂) (hout : ∀ u ∈ visited tr s₂, u.current ≠ t)
    (hlive : ∀ p ∈ tr, p.2 ≠ .destroy t) (hback : Step L callee reserve s₂ e s₃)
    (hcur : s₃.current = t) : s₃.RunsAs L v := by
  have hinv : s₂.Inv L ∧ (s₂.current ≠ t → s₂.suspended t = some v) := by
    refine h.invariant_of_steps
      (I := fun s => s.Inv L ∧ (s.current ≠ t → s.suspended t = some v))
      (C := fun s e => s.current ≠ t ∧ e ≠ .destroy t)
      (fun p hp => ⟨hout p.1 (mem_visited.mpr (.inl ⟨p.2, hp⟩)), hlive p hp⟩)
      ⟨hs, fun _ => ht⟩ ?_
    rintro s e s' ⟨hs, ht⟩ ⟨hne, hlive⟩ hstep
    exact ⟨hs.step hstep, hs.suspended_of_step hstep (ht hne) hlive⟩
  have hne : s₂.current ≠ t := hout s₂ (mem_visited.mpr (.inr rfl))
  exact hinv.1.runsAs_of_step hback (hinv.2 hne) hcur

/-! ### Two threads -/

/-- Two threads. -/
def twoThreads : Layout Bool where
  sym := ⟨0x100, 0x104, 0x108, 0x10c, 0x5000⟩
  thread t := if t then 0x1010 else 0x1000
  stack t := if t then 0x12000 else 0x10000
  stack_lt := by decide
  disjoint := by decide
  threads := by
    unfold Apart
    decide
  outside := by decide
  current := by
    unfold Apart
    decide
  need := by
    unfold Apart
    decide
  gVars := by
    unfold Apart
    decide
  preemption := by decide

/-- Functions that do nothing, but that the scheduler chooses the first thread. -/
def idle : CFunction ⊕ BitVec 32 → Machine → Machine
  | .inl .threadNextRunnable, σ => σ.setReg .eax (twoThreads.thread false)
  | _, σ => σ

theorem idle_cdecl (base : ℕ) (Kept : ℕ → Prop) : Cdecl idle base 0 Kept := by
  constructor
  · rintro (f | a) σ -
    · cases f <;> rfl
    · rfl
  · rintro (f | a) σ i - - -
    · cases f <;> rfl
    · rfl

/-- The first thread runs, and it is about to call `thread_switch_to`. -/
def oneRuns : State Bool where
  machine :=
    { reg := fun r => if r = .esp then 0x10f00 else 7
      seg := fun r => if r = .cs then kernCs else kernDs
      eflags := 2
      eip := 0x4000
      mem := storel (storel (storel (fun _ => 0) 0x100 0x1000) 0x10f00 0x4005) 0x10f04 0x1010 }
  current := false
  suspended _ := none

theorem oneRuns_initial : oneRuns.Initial twoThreads := ⟨by decide +kernel, fun _ => rfl⟩

/-- The second one has been made. -/
def twoThere : State Bool :=
  { oneRuns with
    machine := { oneRuns.machine with mem := oneRuns.booted twoThreads true 0x7000 9 }
    suspended := Function.update oneRuns.suspended true
      (some (oneRuns.bootView twoThreads true 0x7000 9)) }

theorem bootstrap_step :
    Step twoThreads idle 0 oneRuns (.bootstrap true 0x7000 9) twoThere :=
  .bootstrap (by decide) rfl

theorem twoThere_inv : twoThere.Inv twoThreads :=
  inv_of_run oneRuns_initial (.snoc (.nil _) bootstrap_step)

/-- It has taken over. -/
def otherRuns : State Bool :=
  twoThere.handOver twoThere.callerView true
    (exec idle 0 (threadSwitchTo twoThreads.sym) twoThere.machine)

theorem twoThere_row :
    RowAt twoThere.machine.mem twoThere.machine.sp [0x4005, twoThreads.thread true] := by
  have hsp : twoThere.machine.sp = 0x10f00 := rfl
  have hrow : RowAt oneRuns.machine.mem 0x10f00 [0x4005, twoThreads.thread true] := by
    refine ⟨?_, ?_, trivial⟩ <;> decide +kernel
  obtain ⟨-, -, hmem⟩ := threadBootstrap_row oneRuns.machine.mem
    (twoThreads.thread true) twoThreads.sym.threadRun 0x12000 0x7000 9 rfl (by decide) (by decide)
  rw [hsp]
  refine hrow.congr fun i hle hi => hmem i (.inr ?_) (.inl ?_)
  · exact le_trans (by decide) hle
  · exact lt_trans hi (by decide)

theorem switchTo_step : Step twoThreads idle 0 twoThere (.switchTo true) otherRuns :=
  .switchTo (by decide) twoThere_row (by decide) (by decide) (.inr rfl)

theorem otherRuns_inv : otherRuns.Inv twoThreads := twoThere_inv.step switchTo_step

theorem otherRuns_sp : otherRuns.machine.sp = 0x12ff4 ∧ otherRuns.machine.eflags = 0 := by
  have hruns := twoThere_inv.runsAs_of_step switchTo_step (t := true) rfl rfl
  rw [Machine.sp, hruns.1]
  exact ⟨rfl, rfl⟩

/-- It calls `thread_switch_to`. -/
def otherCalls : State Bool :=
  { otherRuns with
    machine := (otherRuns.machine.push (twoThreads.thread false)).push 0x6000 }

theorem work_step :
    Step twoThreads idle 0 otherRuns (.work otherCalls.machine) otherCalls := by
  refine .work fun i hi => ?_
  have hlow : i < 0x12000 := by
    rcases hi with ⟨-, hi⟩ | ⟨t, v, ht, hi⟩
    · exact lt_trans hi (by decide)
    · have hfalse : t = false := by
        by_contra hne
        have hrunning : otherRuns.suspended true = none := otherRuns_inv.running
        rw [Bool.eq_true_of_not_eq_false hne, hrunning] at ht
        cases ht
      subst hfalse
      rcases hi with ⟨-, hi⟩ | ⟨-, hi⟩
      · exact lt_trans hi (by decide)
      · exact lt_trans hi (by decide)
  have hsp := otherRuns_sp.1
  have hsp' := push_sp (σ := otherRuns.machine) (v := twoThreads.thread false) (by omega)
  show ((otherRuns.machine.push (twoThreads.thread false)).push 0x6000).mem i = _
  rw [push_mem (by omega) (by omega), push_mem (by omega) (by omega)]

/-- The first one is back. -/
def oneBack : State Bool :=
  otherCalls.handOver otherCalls.callerView false
    (exec idle 0 (threadSwitchTo twoThreads.sym) otherCalls.machine)

theorem switchBack_step :
    Step twoThreads idle 0 otherCalls (.switchTo false) oneBack := by
  have hsp := otherRuns_sp.1
  have hsp' := push_sp (σ := otherRuns.machine) (v := twoThreads.thread false) (by omega)
  have hsp'' : otherCalls.machine.sp = 0x12fec := by
    show (Machine.push _ _).sp = _
    rw [push_sp (by omega)]
    omega
  have hrow : RowAt otherCalls.machine.mem otherCalls.machine.sp
      [0x6000, twoThreads.thread false] :=
    push_row (by omega) (push_row (by omega) trivial)
  have hatomic : otherCalls.machine.eflags &&& eflagsIf = 0 := by
    have hflags : otherCalls.machine.eflags = 0 := otherRuns_sp.2
    rw [hflags]
    decide
  refine .switchTo hatomic hrow ?_ ?_ (.inr rfl)
  · rw [hsp'']
    decide
  · rw [hsp'']
    decide

/-- A thread that another one has taken over from goes on, when it takes over again, as it was: with
its registers, and with its stack. -/
theorem resumes_of_run (h₀ : s₀.Initial L) (h : Run (Step L callee reserve) s₀ tr₀ s)
    (hleave : Step L callee reserve s e s₁) (hne : s₁.current ≠ s.current)
    (hrun : Run (Step L callee reserve) s₁ tr s₂)
    (hout : ∀ u ∈ visited tr s₂, u.current ≠ s.current)
    (hlive : ∀ p ∈ tr, p.2 ≠ .destroy s.current) (hback : Step L callee reserve s₂ e' s₃)
    (hcur : s₃.current = s.current) : s₃.RunsAs L (s.viewAt e) := by
  have hs := inv_of_run h₀ h
  refine (hs.step hleave).runsAs_of_run ?_ hrun hout hlive hback hcur
  have hover : ∀ w u σ, u ≠ s.current → (s.handOver w u σ).suspended s.current = some w := by
    intro w u σ hu
    show Function.update (s.suspend w) u none s.current = _
    rw [Function.update_of_ne hu.symm]
    exact Function.update_self ..
  cases hleave with
  | work | bootstrap | destroy => exact absurd rfl hne
  | switchTo | interrupt => exact hover _ _ _ hne

theorem resumes_oneBack : oneBack.RunsAs twoThreads twoThere.callerView := by
  refine resumes_of_run oneRuns_initial (.snoc (.nil _) bootstrap_step) switchTo_step (by decide)
    (.snoc (.nil _) work_step) ?_ ?_ switchBack_step rfl
  · intro t ht
    rcases mem_visited.mp ht with ⟨e, he⟩ | rfl
    · cases List.mem_singleton.mp he
      decide
    · decide
  · intro p hp
    cases List.mem_singleton.mp hp
    exact fun h => by cases h

/-- A new thread starts at `thread_run`, with interrupts disabled, and with the function and its
argument on its stack. -/
theorem starts_of_run {startFunc arg : BitVec 32} (h₀ : s₀.Initial L)
    (h : Run (Step L callee reserve) s₀ tr₀ s)
    (hboot : Step L callee reserve s (.bootstrap u startFunc arg) s₁)
    (hrun : Run (Step L callee reserve) s₁ tr s₂) (hout : ∀ t ∈ visited tr s₂, t.current ≠ u)
    (hlive : ∀ p ∈ tr, p.2 ≠ .destroy u) (hback : Step L callee reserve s₂ e' s₃)
    (hcur : s₃.current = u) :
    s₃.machine.eip = L.sym.threadRun ∧ s₃.machine.eflags = 0 ∧
      s₃.machine.seg = (fun r => if r = .cs then kernCs else kernDs) ∧
      s₃.machine.sp = L.top u - 12 ∧ RowAt s₃.machine.mem s₃.machine.sp [0, startFunc, arg] := by
  have hs := inv_of_run h₀ h
  have hruns : s₃.RunsAs L (s.bootView L u startFunc arg) := by
    refine (hs.step hboot).runsAs_of_run ?_ hrun hout hlive hback hcur
    cases hboot
    exact Function.update_self ..
  obtain ⟨hregs, hstack⟩ := hruns
  have hlt := L.stack_lt u
  have hesp : s₃.machine.sp = L.top u - 12 := by
    rw [Machine.sp, hregs]
    show (BitVec.ofNat 32 (L.top u - 12)).toNat = _
    rw [BitVec.toNat_ofNat]
    exact Nat.mod_eq_of_lt (by unfold Layout.top; omega)
  refine ⟨congrArg Registers.eip hregs, congrArg Registers.eflags hregs, ?_, hesp, ?_⟩
  · rw [hregs]
    funext r
    cases r <;> exact ThreadContext.setWidth_selector _
  · have hbase : (BitVec.ofNat 32 (L.stack u)).toNat = L.stack u := by
      rw [BitVec.toNat_ofNat]
      exact Nat.mod_eq_of_lt (by omega)
    obtain ⟨-, hrow, -⟩ := threadBootstrap_row s.machine.mem (L.thread u)
      L.sym.threadRun (BitVec.ofNat 32 (L.stack u)) startFunc arg (by rw [hbase]) hlt
      (by rw [hbase]; exact L.outside u u)
    have hup : L.stack u + threadStackSize - 76 + 4 * (bootContext L.sym.threadRun).words.length =
        L.top u - 12 := by
      rw [ThreadContext.length_words]
      unfold Layout.top threadStackSize
      omega
    rw [rowAt_append, hup] at hrow
    rw [hesp]
    refine hrow.2.congr fun i hle hi => hstack i ?_ ?_
    · rw [← hregs]
      exact hesp.trans_le hle
    · simp only [List.length_cons, List.length_nil] at hi
      rw [hcur]
      unfold Layout.top threadStackSize at *
      omega

theorem starts_otherRuns :
    otherRuns.machine.eip = 0x5000 ∧ otherRuns.machine.sp = 0x12ff4 ∧
      RowAt otherRuns.machine.mem otherRuns.machine.sp [0, 0x7000, 9] := by
  obtain ⟨heip, -, -, hsp, hrow⟩ := starts_of_run oneRuns_initial (.nil _) bootstrap_step (.nil _)
    (by
      intro t ht
      rcases mem_visited.mp ht with ⟨e, he⟩ | rfl
      · cases he
      · decide)
    (by
      intro p hp
      cases hp) switchTo_step rfl
  exact ⟨heip, hsp, hrow⟩

omit [DecidableEq T] in
/-- The functions leave `g_preemption` alone, too. -/
def Quiet (L : Layout T) (s : State T) (callee : CFunction ⊕ BitVec 32 → Machine → Machine)
    (reserve : ℕ) : Prop :=
  Cdecl callee (L.stack s.current) reserve fun i =>
    s.Kept L i ∨ L.sym.gPreemption.toNat ≤ i ∧ i < L.sym.gPreemption.toNat + 4

/-- While preemption is disabled, a thread that is interrupted goes on. -/
theorem Inv.interrupt_of_preemption {n : ℕ} {entry errorcode : BitVec 32} (hs : s.Inv L)
    (h : Step L callee reserve s (.interrupt n entry errorcode) s')
    (hquiet : s.Quiet L callee reserve)
    (hpreemption : loadl s.machine.mem L.sym.gPreemption.toNat = 0) :
    s'.current = s.current ∧ s'.RunsAs L s.interruptedView ∧
      loadl s'.machine.mem L.sym.gPreemption.toNat = 0 := by
  cases h with
  | interrupt hn hlo hhi hcontract hσ hu =>
    subst hσ
    have hcurrent := (L.current s.current).2
    have hneed := (L.need s.current).2
    have houtside := L.outside s.current s.current
    have hvars := L.gVars
    have hpre := L.preemption s.current
    unfold Layout.top Apart threadStackSize at *
    rcases exec_interrupt entry errorcode hn hquiet hlo hs.current
      (fun i hle hi => .inl (.inr (.inr ⟨by omega, by unfold Layout.top threadStackSize; omega⟩)))
      (fun i hle hi => ⟨.inl (.inl (.inl ⟨hle, hi⟩)), by omega⟩) hvars (fun i hle hi => by omega)
      (fun i hle hi => ⟨.inl (.inr (.inl ⟨hle, hi⟩)), by omega⟩) with
      ⟨mem, hexec, -, hmem⟩ | ⟨τ, -, -, henabled, -⟩
    · rw [hexec] at hu ⊢
      have hload : loadl mem L.sym.gCurrent.toNat = L.thread s.current := by
        rw [← hs.current]
        exact loadl_congr fun i hle hi => hmem i (.inl (.inl (.inl ⟨hle, hi⟩))) (by omega)
      have hcur := thread_inj (hu.symm.trans hload)
      refine ⟨hcur, ⟨rfl, ?_⟩, ?_⟩
      · intro i hle hi
        have hle : s.machine.sp ≤ i := hle
        have hi : i < L.top _ := hi
        rw [hcur] at hi
        exact hmem i (.inl (.inr (.inr ⟨by omega, hi⟩))) (.inr hle)
      · rw [← hpreemption]
        exact loadl_congr fun i hle hi => hmem i (.inr ⟨hle, hi⟩) (by omega)
    · exact absurd hpreemption (henabled fun i hle hi => ⟨.inr ⟨hle, hi⟩, by omega⟩)

/-- While preemption is disabled, interrupts change nothing of the thread that they come to. -/
theorem unchanged_of_run (h₀ : s₀.Initial L) (h : Run (Step L callee reserve) s₀ tr₀ s)
    (hpreemption : loadl s.machine.mem L.sym.gPreemption.toNat = 0)
    (hrun : Run (Step L callee reserve) s tr s')
    (htr : ∀ p ∈ tr, (∃ n entry errorcode, p.2 = .interrupt n entry errorcode) ∧
      p.1.Quiet L callee reserve) :
    s'.current = s.current ∧ s'.RunsAs L s.interruptedView := by
  have hend : s'.Inv L ∧ s'.current = s.current ∧ s'.RunsAs L s.interruptedView ∧
      loadl s'.machine.mem L.sym.gPreemption.toNat = 0 := by
    refine hrun.invariant_of_steps
      (I := fun t => t.Inv L ∧ t.current = s.current ∧ t.RunsAs L s.interruptedView ∧
        loadl t.machine.mem L.sym.gPreemption.toNat = 0)
      (C := fun t e => (∃ n entry errorcode, e = .interrupt n entry errorcode) ∧
        t.Quiet L callee reserve)
      htr ⟨inv_of_run h₀ h, rfl, ⟨rfl, fun _ _ _ => rfl⟩, hpreemption⟩ ?_
    rintro t e t' ⟨hinv, hcur, ⟨hregs, hstack⟩, hpre⟩ ⟨⟨n, entry, errorcode, rfl⟩, hquiet⟩ hstep
    obtain ⟨hcur', ⟨hregs', hstack'⟩, hpre'⟩ := hinv.interrupt_of_preemption hstep hquiet hpre
    have hview : t'.machine.toRegisters = s.machine.toRegisters := hregs'.trans hregs
    refine ⟨hinv.step hstep, hcur'.trans hcur, ⟨hview, fun i hle hi => ?_⟩, hpre'⟩
    have hmem : t'.machine.mem i = t.machine.mem i := by
      refine hstack' i ?_ hi
      show (t.machine.reg .esp).toNat ≤ i
      rw [hregs]
      exact hle
    rw [hmem]
    rw [hcur'] at hi
    exact hstack i hle hi
  exact ⟨hend.2.1, hend.2.2.1⟩

theorem unchanged_oneRuns :
    ∃ s', Step twoThreads idle 0 oneRuns (.interrupt 32 0 0) s' ∧ s'.current = false ∧
      s'.RunsAs twoThreads oneRuns.interruptedView := by
  have hrun : Run (Step twoThreads idle 0) oneRuns [] oneRuns := .nil _
  have hinv := inv_of_run oneRuns_initial hrun
  have hcontract : oneRuns.Contract twoThreads idle 0 :=
    ⟨idle_cdecl .., fun ρ _ => ⟨false, .inl rfl, Machine.setReg_self ..⟩⟩
  obtain ⟨u, v, -, hu, -, -⟩ := hinv.interrupt (n := 32) 0 0 (by decide)
    (by decide) (by decide) hcontract rfl
  have hstep : Step twoThreads idle 0 oneRuns (.interrupt 32 0 0) _ :=
    .interrupt (by decide) (by decide) (by decide) hcontract rfl hu
  refine ⟨_, hstep, unchanged_of_run oneRuns_initial (.nil _) (by decide +kernel)
    (.snoc (.nil _) hstep) ?_⟩
  intro p hp
  cases List.mem_singleton.mp hp
  exact ⟨⟨32, 0, 0, rfl⟩, idle_cdecl ..⟩

end State

end GeekOS.Cpu
