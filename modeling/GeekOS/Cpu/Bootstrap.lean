import GeekOS.Cpu.Context

/-!
# The stack of a new thread

`thread_bootstrap` of `x86_thread.c`, store by store: a thread that has not run yet gets a context
on its stack, as if it had been interrupted before its first instruction.

* `threadBootstrap`: the function;
* `threadBootstrap_row`: what stands on the stack then, where the stack pointer is, and that the
  function stores nowhere else.
-/

namespace GeekOS.Cpu

open X86

/-- `THREAD_STACK_SIZE`. -/
def threadStackSize : ℕ := 4096

/-- `thread_stack_push`. -/
def threadStackPush (mem : Words.Memory) (thread value : BitVec 32) : Words.Memory :=
  let mem := storel mem thread.toNat (loadl mem thread.toNat - 4)
  storel mem (loadl mem thread.toNat).toNat value

/-- The fields that `thread_bootstrap` sets, with their offsets. -/
def bootFields (threadRun : BitVec 32) : List (BitVec 32 × BitVec 32) :=
  [(0, kernDs.setWidth 32), (4, kernDs.setWidth 32), (8, kernDs.setWidth 32),
    (12, kernDs.setWidth 32), (52, threadRun), (56, kernCs.setWidth 32), (60, 0)]

/-- `thread_bootstrap`, for a thread with its stack at an address. -/
def threadBootstrap (threadRun : BitVec 32) (mem : Words.Memory) (thread stack : BitVec 32)
    (startFunc arg : BitVec 32) : Words.Memory :=
  let mem := storel mem thread.toNat (stack + BitVec.ofNat 32 threadStackSize)
  let mem := threadStackPush mem thread arg
  let mem := threadStackPush mem thread startFunc
  let mem := threadStackPush mem thread 0
  let mem := storel mem thread.toNat (loadl mem thread.toNat - threadContextSize)
  let context := loadl mem thread.toNat
  let mem := Buffer.writeAt mem context.toNat (List.replicate threadContextSize.toNat 0)
  (bootFields threadRun).foldl (fun mem f => storel mem (context + f.1).toNat f.2) mem

/-- The context of a thread that has not run yet. -/
def bootContext (threadRun : BitVec 32) : ThreadContext where
  gs := kernDs.setWidth 32
  fs := kernDs.setWidth 32
  es := kernDs.setWidth 32
  ds := kernDs.setWidth 32
  ebp := 0
  edi := 0
  esi := 0
  edx := 0
  ecx := 0
  ebx := 0
  eax := 0
  intNum := 0
  errorcode := 0
  eip := threadRun
  cs := kernCs.setWidth 32
  eflags := 0

variable {mem : Words.Memory} {thread p v : BitVec 32} {ws : List (BitVec 32)} {i a k : ℕ}

/-- Words that are zero. -/
theorem rowAt_zero (hlen : 4 * k ≤ i) :
    RowAt (Buffer.writeAt mem a (List.replicate i 0)) a (List.replicate k 0) := by
  have hzero : ∀ j, a ≤ j → j < a + i → Buffer.writeAt mem a (List.replicate i 0) j = 0 := by
    intro j hle hlt
    rw [Buffer.writeAt_apply, if_pos hle, List.getElem?_replicate, if_pos (by omega),
      Option.getD_some]
  have hword : ∀ b, a ≤ b → b + 4 ≤ a + i →
      loadl (Buffer.writeAt mem a (List.replicate i 0)) b = 0 := by
    intro b hle hlt
    have hload : Words.load 4 (Buffer.writeAt mem a (List.replicate i 0)) b =
        Words.load 4 (fun _ => 0) b :=
      Words.load_congr fun j hj hj' => hzero j (by omega) (by omega)
    rw [loadl, hload]
    rfl
  suffices hrow : ∀ b, a ≤ b → b + 4 * k ≤ a + i →
      RowAt (Buffer.writeAt mem a (List.replicate i 0)) b (List.replicate k 0) from
    hrow a le_rfl (by omega)
  intro b hle hlt
  induction k generalizing b with
  | zero => trivial
  | succ k ih =>
    rw [List.replicate_succ]
    exact ⟨hword b hle (by omega), ih (by omega) (b + 4) (by omega) (by omega)⟩

/-- A word is pushed on the stack of a thread. -/
theorem threadStackPush_row (hptr : loadl mem thread.toNat = p) (hp : 4 ≤ p.toNat)
    (hrow : RowAt mem p.toNat ws)
    (hout : thread.toNat + 4 ≤ p.toNat - 4 ∨ p.toNat + 4 * ws.length ≤ thread.toNat) :
    loadl (threadStackPush mem thread v) thread.toNat = p - 4 ∧
      RowAt (threadStackPush mem thread v) (p.toNat - 4) (v :: ws) ∧
      ∀ i, (i < thread.toNat ∨ thread.toNat + 4 ≤ i) → (i < p.toNat - 4 ∨ p.toNat ≤ i) →
        threadStackPush mem thread v i = mem i := by
  have haddr : (p - 4).toNat = p.toNat - 4 := BitVec.toNat_sub_of_le hp
  have hpush : threadStackPush mem thread v =
      storel (storel mem thread.toNat (p - 4)) (p.toNat - 4) v := by
    rw [threadStackPush, loadl_storel_self, hptr, haddr]
  rw [hpush]
  refine ⟨?_, ⟨loadl_storel_self, ?_⟩, ?_⟩
  · rw [loadl_storel_of_disjoint (by omega), loadl_storel_self]
  · have hup : p.toNat - 4 + 4 = p.toNat := Nat.sub_add_cancel hp
    rw [hup]
    exact (hrow.storel_of_disjoint (by omega)).storel_of_disjoint (by omega)
  · intro i hthread hi
    rw [storel_of_disjoint (by omega), storel_of_disjoint hthread]

variable {threadRun stack startFunc arg : BitVec 32}

variable (threadRun) in
/-- The fields are set in a context that has been cleared. -/
theorem bootFields_row {base : BitVec 32} (hbase : base.toNat + 64 < 2 ^ 32)
    (hzero : RowAt mem base.toNat (List.replicate 16 0)) :
    RowAt ((bootFields threadRun).foldl (fun mem f => storel mem (base + f.1).toNat f.2) mem)
        base.toNat (bootContext threadRun).words ∧
      ∀ i, (i < base.toNat ∨ base.toNat + 64 ≤ i) →
        (bootFields threadRun).foldl (fun mem f => storel mem (base + f.1).toNat f.2) mem i =
          mem i := by
  have haddr : ∀ k : BitVec 32, k.toNat ≤ 60 → (base + k).toNat = base.toNat + k.toNat := by
    intro k hk
    bv_omega
  have h₀ := haddr 0 (by decide)
  have h₁ := haddr 4 (by decide)
  have h₂ := haddr 8 (by decide)
  have h₃ := haddr 12 (by decide)
  have h₄ := haddr 52 (by decide)
  have h₅ := haddr 56 (by decide)
  have h₆ := haddr 60 (by decide)
  let ds : BitVec 32 := kernDs.setWidth 32
  -- what is below the last three fields
  let below : List (BitVec 32) := [ds, ds, ds, ds, 0, 0, 0, 0, 0, 0, 0, 0, 0]
  constructor
  · have hrow₀ := RowAt.storel [] (v := ds) hzero h₀
    have hrow₁ := RowAt.storel [ds] (v := ds) hrow₀ h₁
    have hrow₂ := RowAt.storel [ds, ds] (v := ds) hrow₁ h₂
    have hrow₃ := RowAt.storel [ds, ds, ds] (v := ds) hrow₂ h₃
    have hrow₄ := RowAt.storel below (v := threadRun) hrow₃ h₄
    have hrow₅ := RowAt.storel (below ++ [threadRun]) (v := kernCs.setWidth 32) hrow₄ h₅
    exact RowAt.storel (below ++ [threadRun, kernCs.setWidth 32]) (v := 0) hrow₅ h₆
  · intro i hi
    simp only [bootFields, List.foldl_cons, List.foldl_nil]
    rw [h₀, h₁, h₂, h₃, h₄, h₅, h₆]
    iterate 7 rw [storel_of_disjoint (by simp; omega)]

variable (threadRun mem thread stack startFunc arg) in
/-- The context stands on the stack, with what `thread_run` is called with above it, and nothing else
has been stored into. -/
theorem threadBootstrap_row {top : ℕ} (htop : stack.toNat + threadStackSize = top)
    (hlt : top < 2 ^ 32)
    (hout : thread.toNat + 4 ≤ stack.toNat ∨ top ≤ thread.toNat) :
    loadl (threadBootstrap threadRun mem thread stack startFunc arg) thread.toNat =
        BitVec.ofNat 32 (top - 76) ∧
      RowAt (threadBootstrap threadRun mem thread stack startFunc arg) (top - 76)
        ((bootContext threadRun).words ++ [0, startFunc, arg]) ∧
      ∀ i, (i < thread.toNat ∨ thread.toNat + 4 ≤ i) → (i < top - 76 ∨ top ≤ i) →
        threadBootstrap threadRun mem thread stack startFunc arg i = mem i := by
  unfold threadStackSize at htop
  have hstart : (stack + BitVec.ofNat 32 threadStackSize).toNat = top := by
    unfold threadStackSize
    bv_omega
  generalize hp : stack + BitVec.ofNat 32 threadStackSize = p at hstart
  let mem₀ := storel mem thread.toNat p
  obtain ⟨hptr₁, hrow₁, hmem₁⟩ := threadStackPush_row (v := arg)
    (show loadl mem₀ thread.toNat = p from loadl_storel_self) (by omega)
    (show RowAt mem₀ p.toNat [] from trivial)
    (by rw [List.length_nil]; omega)
  let mem₁ := threadStackPush mem₀ thread arg
  have hp₁ : (p - 4).toNat = top - 4 := by bv_omega
  rw [hstart] at hrow₁ hmem₁
  obtain ⟨hptr₂, hrow₂, hmem₂⟩ := threadStackPush_row (v := startFunc) hptr₁ (by omega)
    (by rw [hp₁]; exact hrow₁) (by rw [List.length_singleton]; omega)
  let mem₂ := threadStackPush mem₁ thread startFunc
  have hp₂ : (p - 4 - 4).toNat = top - 8 := by bv_omega
  rw [hp₁] at hrow₂ hmem₂
  obtain ⟨hptr₃, hrow₃, hmem₃⟩ := threadStackPush_row (v := 0) hptr₂ (by omega)
    (by rw [hp₂]; exact hrow₂) (by simp only [List.length_cons, List.length_nil]; omega)
  let mem₃ := threadStackPush mem₂ thread 0
  rw [hp₂] at hrow₃ hmem₃
  have hdown : top - 8 - 4 = top - 12 := by omega
  rw [hdown] at hrow₃ hmem₃
  -- the context goes below the three words
  let context : BitVec 32 := BitVec.ofNat 32 (top - 76)
  have hcontext : context.toNat = top - 76 := by
    rw [BitVec.toNat_ofNat]
    exact Nat.mod_eq_of_lt (by omega)
  have hbase : p - 4 - 4 - 4 - threadContextSize = context := by
    apply BitVec.eq_of_toNat_eq
    unfold threadContextSize
    bv_omega
  let mem₄ := storel mem₃ thread.toNat context
  let mem₅ := Buffer.writeAt mem₄ context.toNat (List.replicate 64 0)
  have hboot : threadBootstrap threadRun mem thread stack startFunc arg =
      (bootFields threadRun).foldl (fun mem f => storel mem (context + f.1).toNat f.2) mem₅ := by
    simp only [threadBootstrap]
    rw [hp, hptr₃, hbase, loadl_storel_self]
    rfl
  have hclear : ∀ i, (i < top - 76 ∨ top - 12 ≤ i) → mem₅ i = mem₄ i := by
    intro i hi
    show Buffer.writeAt _ _ _ i = _
    rw [Buffer.writeAt_apply]
    split
    · rw [List.getElem?_replicate, if_neg (by omega), Option.getD_none]
    · rfl
  have hzero : RowAt mem₅ context.toNat (List.replicate 16 0) := rowAt_zero (by decide)
  obtain ⟨hrow, hmem⟩ := bootFields_row threadRun (by omega) hzero
  rw [hcontext] at hrow hmem
  have hkeep : ∀ i, (i < top - 76 ∨ top - 12 ≤ i) →
      threadBootstrap threadRun mem thread stack startFunc arg i = mem₄ i := by
    intro i hi
    rw [hboot, hmem i (by omega), hclear i hi]
  refine ⟨?_, rowAt_append.mpr ⟨?_, ?_⟩, ?_⟩
  · have hload : loadl (threadBootstrap threadRun mem thread stack startFunc arg) thread.toNat =
        loadl mem₄ thread.toNat :=
      loadl_congr fun i hle hi => hkeep i (by omega)
    rw [hload]
    exact loadl_storel_self
  · rw [hboot]
    exact hrow
  · have hup : top - 76 + 4 * (bootContext threadRun).words.length = top - 12 := by
      rw [ThreadContext.length_words]
      omega
    rw [hup]
    refine hrow₃.congr fun i hle hi => ?_
    simp only [List.length_cons, List.length_nil] at hi
    rw [hkeep i (by omega)]
    exact storel_of_disjoint (by omega)
  · intro i hi hi'
    rw [hkeep i (by omega)]
    show storel mem₃ _ _ i = _
    rw [storel_of_disjoint hi]
    calc mem₃ i = mem₂ i := hmem₃ i hi (by omega)
      _ = mem₁ i := hmem₂ i hi (by omega)
      _ = mem₀ i := hmem₁ i hi (by omega)
      _ = mem i := storel_of_disjoint hi

end GeekOS.Cpu
