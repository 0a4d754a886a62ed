import GeekOS.Thread.Faults
import GeekOS.Kernel.Reachable

/-!
# Why an event fails

`Act.FailsBy` lists the ways in which an act can fail, each with what it says about the state
before. `Act.run_error` and `Machine.exec_error` show the list to be complete.
-/

namespace GeekOS

open Result

/-- The thread an object belongs to. -/
def Object.owner : Object → ThreadId
  | .process t | .stack t | .thread t => t

/-- The object is allocated. -/
def Sched.ObjectAllocated (s : Sched) (o : Object) : Prop :=
  (∃ th, s.threads o.owner = some th) ∧ o ∉ s.freed

namespace Act

/-- The queue from which the act takes the first sleeper without a test that there is one. -/
def wakesOne : Act → Option WaitQueue
  | .thread (.wakeupOne q) => some q
  | .work (.link _ _) => some .work
  | .synch (.unlockWake m _) => some (.mutex m)
  | .synch (.condSignal c) => some (.cond c)
  | _ => none

/-- The objects the act accesses, those of the current thread and of threads in queues aside. -/
def accesses : Act → List Object
  | .thread (.createPid t _) | .thread (.createPriority t) | .thread (.joinTest t _) =>
      [.thread t, .process t]
  | .thread (.join t _) | .work (.destroyProcess t) | .work (.destroyStack t) => [.thread t]
  | _ => []

/-- How an act can fail. -/
inductive FailsBy (k : Kernel) (a : Act) : Fault → Prop
  /-- No thread sleeps in the queue from which the first sleeper is taken. -/
  | noSleeper {q : WaitQueue} (hq : a.wakesOne = some q) (hempty : k.sched.queue (.wait q) = []) :
      FailsBy k a (.assertion (.listHead (.wait q)))
  /-- There is no thread to run. -/
  | noRunnable (hempty : k.sched.queue .runqueue = []) :
      FailsBy k a (.assertion (.listHead .runqueue))
  /-- An assertion that is not about a list. -/
  | check {c : Assertion} (hc : ∀ q, c ≠ .listHead q) : FailsBy k a (.assertion c)
  /-- The current thread or a thread in a queue is not allocated. -/
  | dangling {f : Fault} (hf : f.IsInvalidAccess) (hd : k.sched.Dangling) : FailsBy k a f
  /-- The object that the act gives back is one of theirs. -/
  | freed {f : Fault} {o : Object} (hf : f.IsInvalidAccess) (ho : a.frees = some o)
      (hd : (k.sched.free o).Dangling) : FailsBy k a f
  /-- The identity of the next thread is not fresh. -/
  | notFresh {f : Fault} (hf : f.IsInvalidAccess)
      (hn : .thread k.sched.nextThread ∈ k.sched.freed ∨
        .process k.sched.nextThread ∈ k.sched.freed) : FailsBy k a f
  /-- An object that the act accesses is not allocated. -/
  | accessed {f : Fault} {o : Object} (hf : f.IsInvalidAccess) (ho : o ∈ a.accesses)
      (hno : ¬k.sched.ObjectAllocated o) : FailsBy k a f

end Act

section Causes

variable {k : Kernel} {a : Act} {f : Fault} {t : ThreadId} {acts : List Act}

theorem not_objectAllocated {s : Sched} (h : ¬s.Allocated t) :
    ¬s.ObjectAllocated (.thread t) ∨ ¬s.ObjectAllocated (.process t) := by
  by_contra hcon
  rw [not_or, not_not, not_not] at hcon
  obtain ⟨⟨⟨th, hth⟩, hf⟩, -, hp⟩ := hcon
  exact h ⟨th, hth, hf, hp⟩

/-- An access to a record or to its process. -/
theorem Act.FailsBy.of_not_allocated (ha : .thread t ∈ a.accesses) (hp : .process t ∈ a.accesses)
    (h : ¬k.sched.Allocated t ∧ f.IsInvalidAccess) : a.FailsBy k f := by
  rcases not_objectAllocated h.1 with hno | hno
  · exact .accessed h.2 ha hno
  · exact .accessed h.2 hp hno

/-- An access to a record. -/
theorem Act.FailsBy.of_deref (ha : .thread t ∈ a.accesses) (h : k.sched.deref t = .error f) :
    a.FailsBy k f := by
  obtain ⟨hno, rfl⟩ := Sched.deref_eq_error.mp h
  refine .accessed ⟨_, rfl⟩ ha ?_
  rintro ⟨⟨th, hth⟩, hf⟩
  change k.sched.threads t = some th at hth
  simp_all

theorem atomically_error {operation : Sched → Except Fault Sched}
    (h : k.atomically operation acts = .error f) : operation k.sched = .error f := by
  simpa only [Kernel.atomically, bind_eq_error, pure_ne_error, and_false, exists_false,
    or_false] using h

theorem Act.FailsBy.of_dangling (h : k.sched.Dangling ∧ f.IsInvalidAccess) : a.FailsBy k f :=
  .dangling h.2 h.1

theorem Act.FailsBy.of_yield
    (h : f = .assertion .stateRunning ∨ k.sched.Dangling ∧ f.IsInvalidAccess) : a.FailsBy k f := by
  rcases h with rfl | h
  · exact .check (by simp)
  · exact .of_dangling h

theorem Act.FailsBy.of_wait (h : k.sched.queue .runqueue = [] ∧
      f = .assertion (.listHead .runqueue) ∨ f = .assertion .stateRunning ∨
      k.sched.Dangling ∧ f.IsInvalidAccess) : a.FailsBy k f := by
  rcases h with ⟨hempty, rfl⟩ | h
  · exact .noRunnable hempty
  · exact .of_yield h

theorem Act.FailsBy.of_park (h : k.sched.queue .runqueue = [] ∧
      f = .assertion (.listHead .runqueue) ∨ f = .assertion .stateRunning ∨
      f = .assertion .preemption ∨ k.sched.Dangling ∧ f.IsInvalidAccess) : a.FailsBy k f := by
  rcases h with ⟨hempty, rfl⟩ | rfl | rfl | h
  · exact .noRunnable hempty
  · exact .check (by simp)
  · exact .check (by simp)
  · exact .of_dangling h

theorem Act.FailsBy.of_wakeupOne {q : WaitQueue} (hq : a.wakesOne = some q)
    (h : k.sched.queue (.wait q) = [] ∧ f = .assertion (.listHead (.wait q)) ∨
      k.sched.Dangling ∧ f.IsInvalidAccess) : a.FailsBy k f := by
  rcases h with ⟨hempty, rfl⟩ | h
  · exact .noSleeper hq hempty
  · exact .of_dangling h

theorem Act.FailsBy.of_sleep {q : WaitQueue} {again : Act} (h : k.sleep q again = .error f) :
    a.FailsBy k f :=
  .of_wait (threadWait_error (atomically_error h))

theorem Act.FailsBy.of_memAllocThread {memory : Memory} {again : Allocation → Act}
    {allocated : Act} {c : Allocation}
    (h : k.memAllocThread memory again allocated c = .error f) : a.FailsBy k f := by
  cases c with
  | thread slept | process slept =>
    cases memory with
    | noHeap => exact .of_sleep h
    | available | noFrame => simp [Kernel.memAllocThread, Kernel.memAlloc] at h
  | stack slept =>
    cases memory with
    | noFrame => exact .of_sleep h
    | available | noHeap => simp [Kernel.memAllocThread, Kernel.memAllocFrame] at h

theorem Act.FailsBy.of_createFromJob {memory : Memory} {job : Job} {mode : ThreadMode}
    {again : JobCreation → Act} {made : ThreadId → List Act} {c : JobCreation}
    (h : k.createFromJob memory job mode again made c = .error f) : a.FailsBy k f := by
  cases c with
  | alloc b =>
    rw [Kernel.createFromJob] at h
    exact .of_memAllocThread h
  | pid | priority pid => simp [Kernel.createFromJob] at h
  | makeNew pid priority =>
    simp only [Kernel.createFromJob, bind_eq_error, pure_ne_error, and_false, exists_false,
      or_false] at h
    obtain ⟨hn, hf⟩ := threadCreateFromJob_error h
    exact .notFresh hf hn

theorem detach_error (h : k.detach t = .error f) :
    f = .assertion .refcount ∨ ¬k.sched.Allocated t ∧ f.IsInvalidAccess := by
  simp only [Kernel.detach, bind_eq_error, Prod.exists] at h
  rcases h with h | ⟨b, s, -, h⟩
  · exact threadDetach_error h
  · split at h <;> simp at h

end Causes

section Run

variable {memory : Memory} {k : Kernel} {f : Fault}

theorem ThreadAct.run_error {a : ThreadAct} (h : a.run memory k = .error f) :
    (Act.thread a).FailsBy k f := by
  cases a with
  | idle | yield => exact .of_yield (threadYield_error (atomically_error h))
  | create mode c =>
    rw [ThreadAct.run] at h
    exact .of_memAllocThread h
  | createArrival mode | createGenPid t => simp [ThreadAct.run] at h
  | createRun mode arrival =>
    simp only [ThreadAct.run, bind_eq_error, pure_ne_error, and_false, exists_false, or_false] at h
    obtain ⟨hn, hf⟩ := threadCreate_error h
    exact .notFresh hf hn
  | createPid t pid | createPriority t =>
    exact .of_not_allocated (by simp [Act.accesses]) (by simp [Act.accesses])
      (storeProcess_error (atomically_error h))
  | createFromJob job mode c =>
    rw [ThreadAct.run] at h
    exact .of_createFromJob h
  | merge => exact .of_dangling (mergeNewWithRunnable_error (atomically_error h))
  | wait q => exact .of_wait (threadWait_error (atomically_error h))
  | wakeup q => exact .of_dangling (threadWakeup_error (atomically_error h))
  | wakeupOne q => exact .of_wakeupOne rfl (threadWakeupOne_error (atomically_error h))
  | exit code =>
    simp only [ThreadAct.run, bind_eq_error, pure_ne_error, and_false, exists_false,
      or_false] at h
    rcases detach_error h with rfl | ⟨hno, hf⟩
    · exact .check (by simp)
    · exact .dangling hf ⟨_, .inl rfl, hno⟩
  | exitFinish code =>
    rcases threadExitFinish_error (atomically_error h) with ⟨hempty, rfl⟩ | h
    · exact .noRunnable hempty
    · exact .of_dangling h
  | join child caller =>
    simp only [ThreadAct.run, bind_eq_error, pure_ne_error, and_false, exists_false,
      or_false, require_eq_error] at h
    rcases h with h | ⟨th, -, -, rfl⟩
    · exact .of_deref (by simp [Act.accesses]) h
    · exact .check (by simp)
  | joinTest child caller =>
    -- the test, the exit code, the statistics and the detach all access the child
    have hfail : ¬k.sched.Allocated child ∧ f.IsInvalidAccess →
        (Act.thread (.joinTest child caller)).FailsBy k f :=
      .of_not_allocated (by simp [Act.accesses]) (by simp [Act.accesses])
    have hdetach : k.detach child = .error f →
        (Act.thread (.joinTest child caller)).FailsBy k f := fun h => by
      rcases detach_error h with rfl | h
      · exact .check (by simp)
      · exact hfail h
    simp only [ThreadAct.run, bind_eq_error] at h
    rcases h with h | ⟨b, -, h⟩
    · rcases threadNotRunning_error h with rfl | rfl | h
      · exact .check (by simp)
      · exact .check (by simp)
      · exact hfail h
    · split at h
      · rcases bind_eq_error.mp h with h | ⟨th, -, h⟩
        · exact .of_deref (by simp [Act.accesses]) h
        · cases caller with
          | threadJoin =>
            simp only [bind_eq_error, pure_ne_error, and_false, exists_false, or_false] at h
            exact hdetach h
          | waitForChildren =>
            simp only [bind_eq_error, pure_ne_error, and_false, exists_false, or_false] at h
            rcases h with h | ⟨_, -, h⟩
            · exact hfail (derefProcess_error h)
            · exact hdetach h
      · exact .of_sleep h
  | joinReturn child code => simp [ThreadAct.run] at h
  | waitForChildren threads =>
    cases threads with
    | nil => simp [ThreadAct.run] at h
    | cons child rest => exact .of_yield (threadYield_error (atomically_error h))

theorem WorkAct.run_error {a : WorkAct} (h : a.run memory k = .error f) :
    (Act.work a).FailsBy k f := by
  cases a with
  | schedule item iflag slept =>
    cases memory with
    | noHeap => exact .of_sleep h
    | available | noFrame => simp [WorkAct.run, Kernel.memAlloc] at h
  | link item iflag =>
    -- the item is linked in before the workqueue thread is woken
    have h : threadWakeupOne .work k.sched = .error f := atomically_error (k := { k with
      workqueue := k.workqueue ++ [item] }) h
    exact .of_wakeupOne rfl (threadWakeupOne_error h)
  | loop slept =>
    rw [WorkAct.run] at h
    split at h
    · exact .of_sleep h
    · simp at h
  | destroyProcess t =>
    rcases bind_eq_error.mp (atomically_error h) with h | ⟨th, -, h⟩
    · exact .of_deref (by simp [Act.accesses]) h
    · rcases bind_eq_error.mp h with h | ⟨_, -, h⟩
      · obtain ⟨-, rfl⟩ := require_eq_error.mp h
        exact .check (by simp)
      · -- the object is free by now, so whoever is woken must not be its owner
        obtain ⟨hd, hf⟩ := threadWakeup_error h
        exact .freed hf rfl hd
  | destroyStack t =>
    rcases bind_eq_error.mp (atomically_error h) with h | ⟨th, -, h⟩
    · exact .of_deref (by simp [Act.accesses]) h
    · obtain ⟨hd, hf⟩ := threadWakeup_error h
      exact .freed hf rfl hd
  | destroyThread t =>
    have h : memFree (.thread t) k.sched = .error f := atomically_error h
    obtain ⟨hd, hf⟩ := threadWakeup_error h
    exact .freed hf rfl hd
  | ramdiskHandleRequest r => exact .of_dangling (threadWakeup_error (atomically_error h))
  | freeItem => exact .of_dangling (threadWakeup_error (atomically_error h))

theorem KeyboardAct.run_error {a : KeyboardAct} (h : a.run k = .error f) :
    (Act.keyboard a).FailsBy k f := by
  cases a with
  | readKey => simp [KeyboardAct.run] at h
  | waitForKey slept =>
    rw [KeyboardAct.run] at h
    split at h
    · exact .of_sleep h
    · simp at h

theorem SynchAct.run_error {a : SynchAct} (h : a.run k = .error f) :
    (Act.synch a).FailsBy k f := by
  cases a with
  | mutexLock m | lockParked m caller | lockState m caller | lockOwner m caller
  | lockReturn m caller | mutexUnlock m | unlockState m caller | unlockOwner m caller
  | unlockReturn | condParked c m => simp [SynchAct.run] at h
  | lockTest m caller | unlockTest m caller =>
    rw [SynchAct.run] at h
    split at h <;> simp at h
  | lockImp m caller | unlockImp m caller =>
    simp only [SynchAct.run, bind_eq_error, pure_ne_error, and_false, exists_false,
      or_false, require_eq_error] at h
    rcases h with ⟨-, rfl⟩ | ⟨_, -, -, rfl⟩ <;> exact .check (by simp)
  | condWait c m =>
    simp only [SynchAct.run, bind_eq_error, pure_ne_error, and_false, exists_false,
      or_false, require_eq_error] at h
    obtain ⟨-, rfl⟩ := h
    exact .check (by simp)
  | lockPark m caller => exact .of_park (threadPark_error (atomically_error h))
  | condPark c m => exact .of_park (threadPark_error (atomically_error h))
  | unlockWake m caller =>
    have h : threadWakeupOne (.mutex m) k.sched = .error f := atomically_error (k := { k with
      woken := Function.update k.woken m
        ((k.sched.queue (.wait (.mutex m))).take 1 ++ k.woken m) }) h
    exact .of_wakeupOne rfl (threadWakeupOne_error h)
  | condSignal c => exact .of_wakeupOne rfl (threadWakeupOne_error (atomically_error h))
  | condBroadcast c => exact .of_dangling (threadWakeup_error (atomically_error h))

theorem SimulationAct.run_error {a : SimulationAct} (h : a.run memory k = .error f) :
    (Act.simulation a).FailsBy k f := by
  cases a with
  | setScheduler g quantum | runSimulation simulation | simulationEnd | busyWait ticks =>
    simp [SimulationAct.run] at h
  | firstResponse => exact .of_dangling (firstResponse_error (atomically_error h))
  | busyWaiting last ticks =>
    rw [SimulationAct.run] at h
    split at h <;> simp at h
  | longTermScheduler joblist threads slept =>
    cases joblist with
    | nil => simp [SimulationAct.run] at h
    | cons job rest =>
      rw [SimulationAct.run] at h
      exact .of_createFromJob h

/-- An act fails only in one of the ways listed. -/
theorem Act.run_error {a : Act} (h : a.run memory k = .error f) : a.FailsBy k f := by
  cases a with
  | thread a => exact ThreadAct.run_error h
  | work a => exact WorkAct.run_error h
  | keyboard a => exact KeyboardAct.run_error h
  | synch a => exact SynchAct.run_error h
  | simulation a => exact SimulationAct.run_error h

theorem keyboardIntHandler_error {keycode : Option Keycode}
    (h : keyboardIntHandler keycode k = .error f) : k.sched.Dangling ∧ f.IsInvalidAccess := by
  cases keycode with
  | none => simp [keyboardIntHandler] at h
  | some keycode =>
    simp only [keyboardIntHandler, bind_eq_error, pure_ne_error, and_false, exists_false,
      or_false] at h
    exact threadWakeup_error h

/-- An event fails because an act does, or an interrupt finds the threads in disorder. -/
theorem Machine.exec_error {m : Machine} {e : Event} (h : m.exec e = .error f) :
    (∃ memory a rest, e = .resume memory ∧ m.acts m.current = a :: rest ∧
      a.run memory m.kernel = .error f) ∨ f = .assertion .stateRunning ∨
      m.kernel.sched.Dangling ∧ f.IsInvalidAccess := by
  cases e with
  | call a => simp [exec] at h
  | resume memory =>
    cases hacts : m.acts m.current with
    | nil => simp [exec, hacts] at h
    | cons a rest =>
      simp only [exec, hacts, bind_eq_error, pure_ne_error, and_false, exists_false, or_false] at h
      exact .inl ⟨memory, a, rest, rfl, rfl, h⟩
  | timer =>
    simp only [exec, bind_eq_error, pure_ne_error, and_false, exists_false, or_false] at h
    rcases h with h | ⟨s, hs, h⟩
    · exact .inr (.inr (timerProcessTick_error h))
    · rcases intHandleReturn_error h with ⟨rfl, -⟩ | ⟨hd, hf⟩
      · exact .inr (.inl rfl)
      · exact .inr (.inr ⟨dangling_of_timerProcessTick hs hd, hf⟩)
  | keyboard keycode =>
    simp only [exec, bind_eq_error, pure_ne_error, and_false, exists_false, or_false] at h
    rcases h with h | ⟨k, hk, h⟩
    · exact .inr (.inr (keyboardIntHandler_error h))
    · rcases intHandleReturn_error h with ⟨rfl, -⟩ | ⟨hd, hf⟩
      · exact .inr (.inl rfl)
      · refine .inr (.inr ⟨?_, hf⟩)
        rcases keyboardIntHandler_eq_ok.mp hk with ⟨-, rfl⟩ | ⟨_, s, -, hs, rfl⟩
        · exact hd
        · exact dangling_of_threadWakeup hs hd

end Run

end GeekOS
