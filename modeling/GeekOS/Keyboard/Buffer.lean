import GeekOS.Library.Execution
import GeekOS.Library.RingBuffer
import GeekOS.Kernel.Control

/-!
# The key buffer

`queue.h`: the ring between the keyboard interrupt and the threads that read keys, and the kernel
with this ring in the place of the list that stands for it in `Machine`.

* `enqueue_contents`, `dequeue_eq`: what the functions do to the keys in the ring;
* `State.exec`: an event of the kernel, with `read_key`, `wait_for_key` and the interrupt handler
  on the ring;
* `exec_abs`: it is what the machine does whose key buffer is the list of the keys in the ring.
-/

namespace GeekOS.Keyboard

open Result TransitionSystem

/-! ## The functions of `queue.h` -/

/-- `s_queue` with `s_queue_head` and `s_queue_tail`. -/
abbrev KeyBuffer := RingBuffer Keycode queueSize

/-- `QUEUE_MASK`. -/
def queueMask : ℕ := 0xff

/-- `NEXT`. -/
def next (index : ℕ) : ℕ := (index + 1) &&& queueMask

theorem next_eq (index : ℕ) : next index = (index + 1) % queueSize :=
  Nat.and_two_pow_sub_one_eq_mod (index + 1) 8

theorem next_lt (index : ℕ) : next index < queueSize := by
  rw [next_eq]
  exact Nat.mod_lt _ (by decide)

/-- How the kernel with the ring can fail. -/
inductive BufferFault
  /-- The assertion in `dequeue`. -/
  | queueEmpty
  /-- Elsewhere. -/
  | kernel (f : Fault)
  deriving DecidableEq, Repr

section Functions

variable (b : KeyBuffer)

/-- `is_queue_full`. -/
def isQueueFull : Bool := next b.tail = b.head

/-- `is_queue_empty`. -/
def isQueueEmpty : Bool := b.head = b.tail

/-- `enqueue`. -/
def enqueue (item : Keycode) : KeyBuffer :=
  if !isQueueFull b then
    { b with
      entries := Function.update b.entries b.tail item
      tail := next b.tail
      tail_lt := next_lt b.tail }
  else b

/-- `dequeue`. -/
def dequeue : Except BufferFault (Keycode × KeyBuffer) := do
  require (!isQueueEmpty b) .queueEmpty
  let result := b.entries b.head
  pure (result, { b with head := next b.head, head_lt := next_lt b.head })

variable {b}

theorem isQueueFull_iff : isQueueFull b = true ↔ b.length + 1 = queueSize := by
  rw [isQueueFull, decide_eq_true_iff, next_eq]
  exact b.next_tail_eq_head_iff

theorem isQueueEmpty_iff : isQueueEmpty b = true ↔ b.contents = [] := by
  rw [isQueueEmpty, decide_eq_true_iff]
  exact b.head_eq_tail_iff

/-- A key that comes while the ring is full is dropped; any other one stands behind the rest. -/
theorem enqueue_contents (item : Keycode) :
    (enqueue b item).contents =
      if b.contents.length + 1 < queueSize then b.contents ++ [item] else b.contents := by
  have hlt := b.length_lt
  rw [b.length_contents]
  by_cases hfull : isQueueFull b
  · -- one entry stays free, or the tail would come to the head
    rw [enqueue, hfull, if_neg (by simp), if_neg]
    have hlength := isQueueFull_iff.mp hfull
    omega
  · have hspace : b.length + 1 < queueSize := by
      have hlength := mt isQueueFull_iff.mpr hfull
      omega
    have hpush : enqueue b item = b.push item := by
      simp only [enqueue, hfull, next_eq, RingBuffer.push]
      rfl
    rw [if_pos hspace, hpush, b.contents_push item hspace]

/-- The oldest key is taken from a ring that is not empty. -/
theorem dequeue_eq {keycode : Keycode} {rest : List Keycode} (h : b.contents = keycode :: rest) :
    ∃ b', dequeue b = .ok (keycode, b') ∧ b'.contents = rest := by
  have hempty : isQueueEmpty b = false := by
    rw [Bool.eq_false_iff]
    intro hempty
    simp [isQueueEmpty_iff.mp hempty] at h
  have hne : b.head ≠ b.tail := by simpa [isQueueEmpty] using hempty
  rw [b.contents_pop hne, List.cons.injEq] at h
  refine ⟨b.pop, ?_, h.2⟩
  simp [dequeue, hempty, h.1, next_eq, RingBuffer.pop, require]

end Functions

/-! ## The kernel with the ring -/

/-- A computation of the rest of the kernel. -/
def lift {α : Type} (x : Except Fault α) : Except BufferFault α := x.mapError .kernel

/-- The kernel. -/
structure State where
  /-- The threads and the rest of the kernel, which never reads `keyQueue`. -/
  machine : Machine
  buffer : KeyBuffer
  /-- History: the key codes that `read_key` and `wait_for_key` have given to threads. -/
  delivered : List (ThreadId × Keycode)

/-- `keyboard.c` on the ring: the acts that follow, the kernel, the ring, and the key code that the
function returns. -/
def keyboardRun (k : Kernel) (b : KeyBuffer) :
    KeyboardAct → Except BufferFault (List Act × Kernel × KeyBuffer × Option Keycode)
  | .readKey =>
      if !isQueueEmpty b then do
        let (keycode, b) ← dequeue b
        pure ([], k, b, some keycode)
      else pure ([], k, b, none)
  | .waitForKey _ =>
      if !isQueueEmpty b then do
        let (keycode, b) ← dequeue b
        pure ([], k, b, some keycode)
      else do
        -- `thread_wait`, and then the test of the loop again
        let (acts, k) ← lift (k.sleep .work (.keyboard (.waitForKey true)))
        pure (acts, k, b, none)

namespace State

variable (s : State)

/-- `keyboard_int_handler`, which has a key code for the buffer or none. -/
def keyboardIntHandler : Option Keycode → Except BufferFault State
  | none => pure s
  | some keycode => do
      -- the threads are woken even if the key is dropped
      let sched ← lift (threadWakeup .work s.machine.kernel.sched)
      pure { s with
        machine.kernel.sched := { sched with gNeedReschedule := true }
        buffer := enqueue s.buffer keycode }

/-- Carry out an event. -/
def exec : Event → Except BufferFault State
  | .resume memory =>
      match s.machine.acts s.machine.current with
      | .keyboard a :: rest => do
          let (acts, kernel, buffer, result) ← keyboardRun s.machine.kernel s.buffer a
          pure {
            machine :=
              { kernel, acts := Function.update s.machine.acts s.machine.current (acts ++ rest) }
            buffer
            delivered := s.delivered ++ (result.map (s.machine.current, ·)).toList }
      | _ => do
          let machine ← lift (s.machine.exec (.resume memory))
          pure { s with machine }
  | .keyboard keycode => do
      let s ← s.keyboardIntHandler keycode
      let sched ← lift (intHandleReturn s.machine.kernel.sched)
      pure { s with machine.kernel.sched := sched }
  | e => do
      let machine ← lift (s.machine.exec e)
      pure { s with machine }

/-- One step. -/
def Step : State → Event → State → Prop := stepOf (fun s => s.machine.Enabled) exec

/-- The state behind `keyboard_init`. -/
def initial : State where
  machine := boot
  buffer :=
    { entries := fun _ => 0, head := 0, tail := 0, head_lt := by decide, tail_lt := by decide }
  delivered := []

end State

/-! ## The kernel with the list -/

/-- The kernel with this list for the key buffer. -/
def withKeys (q : List Keycode) (k : Kernel) : Kernel := { k with keyQueue := q }

/-- The machine whose key buffer is the list of the keys in the ring. -/
def State.abs (s : State) : Machine :=
  { s.machine with kernel := withKeys s.buffer.contents s.machine.kernel }

/-- The same outcome with this list for the key buffer. -/
def outcomeWithKeys (q : List Keycode) (x : Outcome) : Outcome :=
  x.map fun r => (r.1, withKeys q r.2)

section Frame
variable {memory : Memory} {k : Kernel} {q : List Keycode}

/-- A computation that does not look at the kernel comes first. -/
theorem bind_withKeys {α : Type} {x : Except Fault α} {f f' : α → Outcome}
    (h : ∀ a, f' a = outcomeWithKeys q (f a)) : (x >>= f') = outcomeWithKeys q (x >>= f) := by
  cases x with
  | error => rfl
  | ok a => exact h a

theorem bind_outcomeWithKeys {x : Outcome} {f f' : List Act × Kernel → Outcome}
    (h : ∀ r : List Act × Kernel, f' (r.1, withKeys q r.2) = outcomeWithKeys q (f r)) :
    (outcomeWithKeys q x >>= f') = outcomeWithKeys q (x >>= f) := by
  cases x with
  | error => rfl
  | ok a => exact h a

theorem atomically_withKeys {operation : Sched → Except Fault Sched} {acts : List Act} :
    (withKeys q k).atomically operation acts = outcomeWithKeys q (k.atomically operation acts) :=
  bind_withKeys fun _ => rfl

theorem memAlloc_withKeys {again : Act} {x : Outcome} :
    (withKeys q k).memAlloc memory again (outcomeWithKeys q x) =
      outcomeWithKeys q (k.memAlloc memory again x) := by
  cases memory with
  | noHeap => exact atomically_withKeys
  | available | noFrame => rfl

theorem memAllocFrame_withKeys {again : Act} {x : Outcome} :
    (withKeys q k).memAllocFrame memory again (outcomeWithKeys q x) =
      outcomeWithKeys q (k.memAllocFrame memory again x) := by
  cases memory with
  | noFrame => exact atomically_withKeys
  | available | noHeap => rfl

theorem memAllocThread_withKeys {again : Allocation → Act} {allocated : Act} {a : Allocation} :
    (withKeys q k).memAllocThread memory again allocated a =
      outcomeWithKeys q (k.memAllocThread memory again allocated a) := by
  cases a with
  | thread slept => exact memAlloc_withKeys (k := k) (x := pure ([again (.stack false)], k))
  | stack slept => exact memAllocFrame_withKeys (k := k) (x := pure ([again (.process false)], k))
  | process slept => exact memAlloc_withKeys (k := k) (x := pure ([allocated], k))

theorem createFromJob_withKeys {job : Job} {mode : ThreadMode} {again : JobCreation → Act}
    {made : ThreadId → List Act} {c : JobCreation} :
    (withKeys q k).createFromJob memory job mode again made c =
      outcomeWithKeys q (k.createFromJob memory job mode again made c) := by
  cases c with
  | alloc a =>
    rw [Kernel.createFromJob, Kernel.createFromJob]
    exact memAllocThread_withKeys
  | pid | priority => rfl
  | makeNew pid priority => exact bind_withKeys fun _ => rfl

theorem detach_withKeys {t : ThreadId} :
    (withKeys q k).detach t = outcomeWithKeys q (k.detach t) := by
  refine bind_withKeys fun r => ?_
  obtain ⟨destroy, sched⟩ := r
  cases destroy <;> rfl

theorem threadAct_withKeys (a : ThreadAct) : a.run memory (withKeys q k) =
    outcomeWithKeys q (a.run memory k) := by
  cases a with
  | create mode a =>
    rw [ThreadAct.run, ThreadAct.run]
    exact memAllocThread_withKeys
  | createArrival | createGenPid => rfl
  | createRun mode arrival => exact bind_withKeys fun _ => rfl
  | createFromJob job mode c =>
    rw [ThreadAct.run, ThreadAct.run]
    exact createFromJob_withKeys
  | exit code =>
    have hdetach := detach_withKeys (q := q) (t := k.current)
      (k := { k with exitArg := Function.update k.exitArg k.current (some code) })
    exact (congrArg (· >>= _) hdetach).trans (bind_outcomeWithKeys fun _ => rfl)
  | join child caller => exact bind_withKeys fun th => bind_withKeys fun _ => rfl
  | joinTest child caller =>
    refine bind_withKeys fun exited => ?_
    cases exited with
    | false => exact atomically_withKeys
    | true =>
      refine bind_withKeys fun th => ?_
      cases caller with
      | threadJoin =>
        exact (congrArg (· >>= _) detach_withKeys).trans (bind_outcomeWithKeys fun _ => rfl)
      | waitForChildren =>
        refine bind_withKeys fun _ => ?_
        exact (congrArg (· >>= _) detach_withKeys).trans (bind_outcomeWithKeys fun _ => rfl)
  | joinReturn => rfl
  | waitForChildren threads =>
    cases threads with
    | nil => rfl
    | cons => exact atomically_withKeys
  -- the others are one call with interrupts disabled
  | _ => exact atomically_withKeys

theorem workAct_withKeys (a : WorkAct) : a.run memory (withKeys q k) =
    outcomeWithKeys q (a.run memory k) := by
  cases a with
  | schedule item iflag slept =>
    exact memAlloc_withKeys (k := k) (x := pure ([.work (.link item iflag)], k))
  | link item iflag =>
    exact atomically_withKeys (k := { k with workqueue := k.workqueue ++ [item] })
  | loop slept =>
    -- whether the workqueue thread sleeps does not depend on the keys, though it sleeps with those
    -- who wait for them
    have hqueue : (withKeys q k).workqueue = k.workqueue := rfl
    rw [WorkAct.run, WorkAct.run, hqueue]
    cases k.workqueue with
    | nil => exact atomically_withKeys
    | cons => rfl
  | _ => exact atomically_withKeys

theorem synchAct_withKeys (a : SynchAct) : a.run (withKeys q k) =
    outcomeWithKeys q (a.run k) := by
  cases a with
  | lockImp m caller => exact bind_withKeys fun _ => bind_withKeys fun _ => rfl
  | unlockImp m caller => exact bind_withKeys fun _ => bind_withKeys fun _ => rfl
  | condWait c m => exact bind_withKeys fun _ => rfl
  | lockTest m caller =>
    rw [SynchAct.run, SynchAct.run]
    -- the mutex is that of the kernel with other keys
    change (if (k.mutex m).state = .locked then _ else _) = _
    split <;> rfl
  | unlockTest m caller =>
    rw [SynchAct.run, SynchAct.run]
    change (if k.sched.queue (.wait (.mutex m)) = [] then _ else _) = _
    split <;> rfl
  | mutexLock | lockParked | lockState | lockOwner | lockReturn | mutexUnlock | unlockState
  | unlockOwner | unlockReturn | condParked => rfl
  | unlockWake m caller =>
    exact atomically_withKeys (k := { k with woken := _ })
  | _ => exact atomically_withKeys

theorem simulationAct_withKeys (a : SimulationAct) : a.run memory (withKeys q k) =
    outcomeWithKeys q (a.run memory k) := by
  cases a with
  | longTermScheduler joblist threads c =>
    cases joblist with
    | nil => rfl
    | cons job rest =>
      rw [SimulationAct.run, SimulationAct.run]
      exact createFromJob_withKeys
  | firstResponse => exact atomically_withKeys
  | busyWaiting last ticks =>
    rw [SimulationAct.run, SimulationAct.run]
    change (if k.sched.gNumticks < _ then _ else _) = _
    split <;> rfl
  | _ => rfl

/-- No act but those of `keyboard.c` reads the key buffer or stores to it. -/
theorem act_withKeys {a : Act} (ha : ∀ b, a ≠ .keyboard b) :
    a.run memory (withKeys q k) = outcomeWithKeys q (a.run memory k) := by
  cases a with
  | thread a => exact threadAct_withKeys a
  | work a => exact workAct_withKeys a
  | keyboard a => exact absurd rfl (ha a)
  | synch a => exact synchAct_withKeys a
  | simulation a => exact simulationAct_withKeys a

end Frame

/-- The outcome of an act on the ring, as one on the list. -/
def keysOf (r : List Act × Kernel × KeyBuffer × Option Keycode) : List Act × Kernel :=
  (r.1, withKeys r.2.2.1.contents r.2.1)

/-- A key that waits is given to the reader, which returns. -/
theorem keyboardRun_of_cons (k : Kernel) {b : KeyBuffer} {keycode : Keycode} {rest : List Keycode}
    (h : b.contents = keycode :: rest) : ∃ b', b'.contents = rest ∧
      ∀ a, keyboardRun k b a = .ok ([], k, b', some keycode) := by
  obtain ⟨b', hb', hrest⟩ := dequeue_eq h
  have hempty : isQueueEmpty b = false := by
    rw [Bool.eq_false_iff]
    intro hempty
    simp [isQueueEmpty_iff.mp hempty] at h
  refine ⟨b', hrest, fun a => ?_⟩
  cases a <;> simp only [keyboardRun, hempty, hb'] <;> rfl

theorem keyboardRun_abs (k : Kernel) (b : KeyBuffer) (a : KeyboardAct) :
    (keyboardRun k b a).map keysOf = lift (a.run (withKeys b.contents k)) := by
  -- both sides test for a key, the one the ring and the other the list
  cases hb : b.contents with
  | nil =>
    have hempty : isQueueEmpty b = true := isQueueEmpty_iff.mpr hb
    cases a with
    | readKey =>
      simp only [keyboardRun, hempty]
      exact congrArg (fun q => Except.ok ([], withKeys q k)) hb
    | waitForKey slept =>
      simp only [keyboardRun, hempty]
      have hsleep : (withKeys [] k).sleep .work (.keyboard (.waitForKey true)) =
        outcomeWithKeys [] (k.sleep .work (.keyboard (.waitForKey true))) := atomically_withKeys
      refine Eq.trans ?_ (congrArg lift hsleep).symm
      cases k.sleep .work (.keyboard (.waitForKey true)) with
      | error f => rfl
      | ok r => exact congrArg (fun q => Except.ok (r.1, withKeys q r.2)) hb
  | cons keycode rest =>
    obtain ⟨b', rfl, hrun⟩ := keyboardRun_of_cons k hb
    rw [hrun]
    cases a <;> rfl

theorem lift_bind {α β : Type} {x : Except Fault α} {f : α → Except Fault β} :
    lift (x >>= f) = lift x >>= fun a => lift (f a) := by
  cases x <;> rfl

theorem lift_outcomeWithKeys {q : List Keycode} (x : Outcome) :
    lift (outcomeWithKeys q x) = (lift x).map fun r => (r.1, withKeys q r.2) := by
  cases x <;> rfl

/-- An act of the current thread. -/
theorem exec_resume_abs (s : State) {memory : Memory} {a : Act} {rest : List Act}
    (hacts : s.machine.acts s.machine.current = a :: rest) :
    (s.exec (.resume memory)).map State.abs = lift (s.abs.exec (.resume memory)) := by
  have habs : s.abs.acts s.abs.current = a :: rest := hacts
  have hrun : s.abs.exec (.resume memory) =
      a.run memory (withKeys s.buffer.contents s.machine.kernel) >>= fun r =>
        pure ⟨r.2, Function.update s.machine.acts s.machine.current (r.1 ++ rest)⟩ := by
    simp only [Machine.exec, habs]
    rfl
  rw [hrun, lift_bind]
  by_cases hkey : ∃ b, a = .keyboard b
  · -- an act of `keyboard.c`
    obtain ⟨b, rfl⟩ := hkey
    have hb : lift ((Act.keyboard b).run memory (withKeys s.buffer.contents s.machine.kernel)) =
        (keyboardRun s.machine.kernel s.buffer b).map keysOf := (keyboardRun_abs ..).symm
    rw [hb]
    simp only [State.exec, hacts]
    cases keyboardRun s.machine.kernel s.buffer b <;> rfl
  · -- any other act does not notice which keys there are
    have hother : ∀ b, a ≠ .keyboard b := fun b hab => hkey ⟨b, hab⟩
    rw [act_withKeys hother, lift_outcomeWithKeys]
    have hexec : s.exec (.resume memory) = lift (s.machine.exec (.resume memory)) >>= fun machine =>
        pure { s with machine } := by
      simp only [State.exec, hacts]
      split
      next b rest' heq => exact absurd (List.cons.inj heq).1 (hother b)
      next => rfl
    rw [hexec]
    simp only [Machine.exec, hacts]
    cases a.run memory s.machine.kernel <;> rfl

/-- The handler of the interrupt does to the ring what it does to the list. -/
theorem keyboardIntHandler_abs (s : State) (keycode : Option Keycode) :
    (s.keyboardIntHandler keycode).map State.abs =
      lift ((keyboardIntHandler keycode s.abs.kernel).map fun kernel => { s.abs with kernel }) := by
  cases keycode with
  | none => rfl
  | some keycode =>
    have hsched : s.abs.kernel.sched = s.machine.kernel.sched := rfl
    simp only [State.keyboardIntHandler, keyboardIntHandler, hsched]
    cases threadWakeup .work s.machine.kernel.sched with
    | error f => rfl
    | ok sched =>
      -- the two kernels differ in what they do to the keys
      exact congrArg (fun q => Except.ok { s.abs with
        kernel :=
          { s.abs.kernel with keyQueue := q, sched := { sched with gNeedReschedule := true } } })
        (enqueue_contents keycode)

/-- What the kernel with the ring does to an event is what the machine does. -/
theorem exec_abs (s : State) (e : Event) : (s.exec e).map State.abs = lift (s.abs.exec e) := by
  cases e with
  | call a => rfl
  | resume memory =>
    cases hacts : s.machine.acts s.machine.current with
    | nil =>
      -- nothing is left to do, and nothing happens
      have habs : s.abs.acts s.abs.current = [] := hacts
      simp only [State.exec, Machine.exec, hacts, habs]
      rfl
    | cons a rest => exact exec_resume_abs s hacts
  | timer =>
    have habs : s.abs.exec .timer = timerProcessTick s.machine.kernel.sched >>= fun sched =>
        intHandleReturn sched >>= fun sched =>
          pure { s.abs with kernel := { s.abs.kernel with sched } } := rfl
    rw [habs]
    simp only [State.exec, Machine.exec]
    cases timerProcessTick s.machine.kernel.sched with
    | error f => rfl
    | ok sched =>
      simp only [ok_bind]
      cases intHandleReturn sched <;> rfl
  | keyboard keycode =>
    have habs : s.abs.exec (.keyboard keycode) =
        ((keyboardIntHandler keycode s.abs.kernel).map fun kernel => { s.abs with kernel }) >>=
          fun m => intHandleReturn m.kernel.sched >>= fun sched =>
            pure { m with kernel := { m.kernel with sched } } := by
      rw [Machine.exec]
      cases keyboardIntHandler keycode s.abs.kernel <;> rfl
    rw [habs, lift_bind, ← keyboardIntHandler_abs, State.exec]
    cases s.keyboardIntHandler keycode with
    | error f => rfl
    | ok s' =>
      have hsched : s'.abs.kernel.sched = s'.machine.kernel.sched := rfl
      simp only [ok_bind, Except.map, hsched]
      cases intHandleReturn s'.machine.kernel.sched <;> rfl

end GeekOS.Keyboard
