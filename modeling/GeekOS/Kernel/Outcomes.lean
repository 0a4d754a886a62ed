import GeekOS.Thread.Moves
import GeekOS.Kernel.Step

/-!
# What the acts do

`Act.run` module by module, as relations: for an act, the acts that follow it and the state that it
leaves. Whatever holds of every act is proved from their cases, and not from `Act.run`.

* `atomically_eq_ok`, `detach_eq_ok` and the like: the parts of which the acts are made;
* `JobStep`: the cases of `thread_create_from_job`, which has two callers;
* `ThreadStep`, `WorkStep`, `KeyboardStep`, `SynchStep`, `SimulationStep`: the cases;
* `ThreadAct.run_step` and the like: an act that returns has done what is listed.
-/

namespace GeekOS

open Result

/-- The queue in which an allocation lets the caller sleep, if it does. -/
def Allocation.sleepsOn (memory : Memory) : Allocation → Option WaitQueue
  | .thread _ | .process _ => if memory = .noHeap then some .heap else none
  | .stack _ => if memory = .noFrame then some .frame else none

/-- The same for `thread_create_from_job`. -/
def JobCreation.sleepsOn (memory : Memory) : JobCreation → Option WaitQueue
  | .alloc a => a.sleepsOn memory
  | _ => none

/-! ## The parts of the acts -/

section Acts

variable {memory : Memory} {k k' : Kernel} {acts acts' : List Act}

theorem atomically_eq_ok {operation : Sched → Except Fault Sched} :
    k.atomically operation acts' = .ok (acts, k') ↔
      acts = acts' ∧ ∃ s, operation k.sched = .ok s ∧ k' = { k with sched := s } := by
  simp only [Kernel.atomically, bind_eq_ok, pure_eq_ok, Prod.mk.injEq]
  constructor
  · rintro ⟨s, hs, rfl, rfl⟩
    exact ⟨rfl, s, hs, rfl⟩
  · rintro ⟨rfl, s, hs, rfl⟩
    exact ⟨s, hs, rfl, rfl⟩

theorem detach_eq_ok {t : ThreadId} (h : k.detach t = .ok (acts, k')) :
    ∃ th, k.sched.threads t = some th ∧ .thread t ∉ k.sched.freed ∧ 0 < th.refcount ∧
      acts = (if th.refcount = 1 then [.work (.schedule (.threadDestroy t) false false)] else []) ∧
      k' = { k with
        sched := k.sched.setThread t { th with refcount := th.refcount - 1 }
        scheduled := if th.refcount = 1 then k.scheduled ++ [t] else k.scheduled } := by
  simp only [Kernel.detach, bind_eq_ok, Prod.exists] at h
  obtain ⟨b, s, hs, h⟩ := h
  obtain ⟨th, hth, hf, hpos, rfl, rfl⟩ := threadDetach_eq_ok hs
  refine ⟨th, hth, hf, hpos, ?_⟩
  by_cases hone : th.refcount = 1 <;>
  · simp only [hone, decide_true, decide_false, if_true, if_false, Bool.false_eq_true, pure_eq_ok,
      Prod.mk.injEq] at h ⊢
    exact ⟨h.1.symm, h.2.symm⟩

/-- `thread_not_running` returns for a thread whose parent is the current thread. -/
theorem threadNotRunning_eq_ok {s : Sched} {t : ThreadId} {b : Bool} :
    threadNotRunning t s = .ok b ↔ ∃ th, s.threads t = some th ∧ .thread t ∉ s.freed ∧
      0 < th.refcount ∧ th.parent = some s.gCurrent ∧
      b = decide (th.state = .exited ∨ th.state = .killed) := by
  simp only [threadNotRunning, bind_eq_ok, Sched.deref_eq_ok, require_eq_ok, pure_eq_ok]
  constructor
  · rintro ⟨th, ⟨hth, hf⟩, -, hpos, -, hpar, rfl⟩
    exact ⟨th, hth, hf, hpos, hpar, rfl⟩
  · rintro ⟨th, hth, hf, hpos, hpar, rfl⟩
    exact ⟨th, ⟨hth, hf⟩, (), hpos, (), hpar, rfl⟩

/-- `mem_alloc` goes to sleep, or its caller goes on. -/
theorem memAlloc_eq_ok {again : Act} {allocated : Outcome} {r : List Act × Kernel} :
    k.memAlloc memory again allocated = .ok r ↔
      (memory = .noHeap ∧ k.sleep .heap again = .ok r) ∨ (memory ≠ .noHeap ∧ allocated = .ok r) := by
  cases memory <;> simp [Kernel.memAlloc]

/-- An allocation of `thread_create` goes to sleep, or the function goes on. -/
theorem memAllocThread_eq_ok {again : Allocation → Act} {allocated : Act} {a : Allocation}
    {r : List Act × Kernel} :
    k.memAllocThread memory again allocated a = .ok r ↔
      (∃ q, a.sleepsOn memory = some q ∧ k.sleep q (again a.asleep) = .ok r) ∨
      (a.sleepsOn memory = none ∧ r = ([a.next.elim allocated again], k)) := by
  cases a <;> cases memory <;>
    simp [Kernel.memAllocThread, Kernel.memAlloc, Kernel.memAllocFrame, Allocation.sleepsOn,
      Allocation.asleep, Allocation.next, pure_eq_ok, @eq_comm _ r]

end Acts

/-! ## The cases -/

/-- What a statement of `thread_create_from_job` does: how the function goes on, or the thread that
it has made, and the state. -/
inductive JobStep (memory : Memory) (job : Job) (mode : ThreadMode) (s : Sched) :
    JobCreation → JobCreation ⊕ ThreadId → Sched → Prop
  | asleep {a : Allocation} {q : WaitQueue} {s' : Sched} (hq : a.sleepsOn memory = some q)
      (hs : threadWait q s = .ok s') :
      JobStep memory job mode s (.alloc a) (.inl (.alloc a.asleep)) s'
  | alloc {a : Allocation} (hq : a.sleepsOn memory = none) :
      JobStep memory job mode s (.alloc a) (.inl (a.next.elim .pid .alloc)) s
  | pid : JobStep memory job mode s .pid (.inl (.priority s.pid)) (genPid s).2
  | priority (pid : ℕ) :
      JobStep memory job mode s (.priority pid)
        (.inl (.makeNew pid (jobPriority s.gScheduler job))) s
  | made {pid : ℕ} {priority : ℤ} {t : ThreadId} {s' : Sched}
      (hs : threadCreateFromJob { pid, priority } mode s = .ok (t, s')) :
      JobStep memory job mode s (.makeNew pid priority) (.inr t) s'

/-- What an act of `thread.c` does: the acts that follow, and the state. -/
inductive ThreadStep (memory : Memory) (k : Kernel) : ThreadAct → List Act → Kernel → Prop
  | idle {s : Sched} (hs : threadYield k.sched = .ok s) :
      ThreadStep memory k .idle [.thread .idle] { k with sched := s }
  | createAsleep {mode : ThreadMode} {a : Allocation} {q : WaitQueue} {s : Sched}
      (hq : a.sleepsOn memory = some q) (hs : threadWait q k.sched = .ok s) :
      ThreadStep memory k (.create mode a) [.thread (.create mode a.asleep)] { k with sched := s }
  | createAlloc {mode : ThreadMode} {a : Allocation} (hq : a.sleepsOn memory = none) :
      ThreadStep memory k (.create mode a)
        [a.next.elim (.thread (.createArrival mode)) fun a => .thread (.create mode a)] k
  | createArrival (mode : ThreadMode) :
      ThreadStep memory k (.createArrival mode)
        [.thread (.createRun mode (arrivalTime k.sched))] k
  | create {mode : ThreadMode} {arrival : ℕ} {t : ThreadId} {s : Sched}
      (hs : threadCreate mode arrival k.sched = .ok (t, s)) :
      ThreadStep memory k (.createRun mode arrival) [.thread (.createGenPid t)]
        { k with sched := s }
  | createGenPid (t : ThreadId) :
      ThreadStep memory k (.createGenPid t) [.thread (.createPid t k.sched.pid)]
        { k with sched := (genPid k.sched).2 }
  | createPid {t : ThreadId} {pid : ℕ} {s : Sched} (hs : threadCreatePid t pid k.sched = .ok s) :
      ThreadStep memory k (.createPid t pid) [.thread (.createPriority t)] { k with sched := s }
  | createPriority {t : ThreadId} {s : Sched} (hs : threadCreatePriority t k.sched = .ok s) :
      ThreadStep memory k (.createPriority t) [] { k with sched := s }
  | createFromJob {job : Job} {mode : ThreadMode} {c : JobCreation} {r : JobCreation ⊕ ThreadId}
      {s : Sched} (hj : JobStep memory job mode k.sched c r s) :
      ThreadStep memory k (.createFromJob job mode c)
        (r.elim (fun c => [.thread (.createFromJob job mode c)]) fun _ => []) { k with sched := s }
  | merge {s : Sched} (hs : mergeNewWithRunnable k.sched = .ok s) :
      ThreadStep memory k .merge [] { k with sched := s }
  | yield {s : Sched} (hs : threadYield k.sched = .ok s) :
      ThreadStep memory k .yield [] { k with sched := s }
  | wait {q : WaitQueue} {s : Sched} (hs : threadWait q k.sched = .ok s) :
      ThreadStep memory k (.wait q) [] { k with sched := s }
  | wakeup {q : WaitQueue} {s : Sched} (hs : threadWakeup q k.sched = .ok s) :
      ThreadStep memory k (.wakeup q) [] { k with sched := s }
  | wakeupOne {q : WaitQueue} {s : Sched} (hs : threadWakeupOne q k.sched = .ok s) :
      ThreadStep memory k (.wakeupOne q) [] { k with sched := s }
  | exit {code : ℤ} {acts : List Act} {k' : Kernel}
      (hd : Kernel.detach { k with exitArg := Function.update k.exitArg k.current (some code) }
        k.current = .ok (acts, k')) :
      ThreadStep memory k (.exit code) (acts ++ [.thread (.exitFinish code)]) k'
  | exitFinish {code : ℤ} {s : Sched} (hs : threadExitFinish code k.sched = .ok s) :
      ThreadStep memory k (.exitFinish code) [] { k with sched := s }
  | join {child : ThreadId} {caller : JoinCaller} {th : Thread}
      (hth : k.sched.threads child = some th) (hparent : th.parent = some k.current) :
      ThreadStep memory k (.join child caller) [.thread (.joinTest child caller)] k
  | joinAsleep {child : ThreadId} {caller : JoinCaller} {th : Thread} {s : Sched}
      (hth : k.sched.threads child = some th) (hparent : th.parent = some k.current)
      (hruns : ¬(th.state = .exited ∨ th.state = .killed))
      (hs : threadWait (.thread child) k.sched = .ok s) :
      ThreadStep memory k (.joinTest child caller) [.thread (.joinTest child caller)]
        { k with sched := s }
  | threadJoin {child : ThreadId} {th : Thread} {acts : List Act} {k' : Kernel}
      (hth : k.sched.threads child = some th) (hparent : th.parent = some k.current)
      (hend : th.state = .exited ∨ th.state = .killed) (hd : k.detach child = .ok (acts, k')) :
      ThreadStep memory k (.joinTest child .threadJoin)
        (acts ++ [.thread (.joinReturn child th.exitcode)])
        { k' with joined := child :: k'.joined }
  | waitForChild {child : ThreadId} {th : Thread} {acts : List Act} {k' : Kernel}
      (hth : k.sched.threads child = some th) (hparent : th.parent = some k.current)
      (hend : th.state = .exited ∨ th.state = .killed) (hd : k.detach child = .ok (acts, k')) :
      ThreadStep memory k (.joinTest child .waitForChildren) acts
        { k' with joined := child :: k'.joined }
  | joinReturn (child : ThreadId) (code : ℤ) :
      ThreadStep memory k (.joinReturn child code) []
        { k with returned := (child, code) :: k.returned }
  | waitForNone : ThreadStep memory k (.waitForChildren []) [] k
  | waitForChildren {child : ThreadId} {rest : List ThreadId} {s : Sched}
      (hs : threadYield k.sched = .ok s) :
      ThreadStep memory k (.waitForChildren (child :: rest))
        [.thread (.join child .waitForChildren), .thread (.waitForChildren rest)]
        { k with sched := s }

/-- What an act of `workqueue.c` does, or of the callbacks that it calls. -/
inductive WorkStep (memory : Memory) (k : Kernel) : WorkAct → List Act → Kernel → Prop
  | scheduleAsleep {item : WorkItem} {iflag slept : Bool} {s : Sched} (hmemory : memory = .noHeap)
      (hs : threadWait .heap k.sched = .ok s) :
      WorkStep memory k (.schedule item iflag slept) [.work (.schedule item iflag true)]
        { k with sched := s }
  | schedule {item : WorkItem} {iflag slept : Bool} (hmemory : memory ≠ .noHeap) :
      WorkStep memory k (.schedule item iflag slept) [.work (.link item iflag)] k
  | link {item : WorkItem} {iflag : Bool} {s : Sched} (hs : threadWakeupOne .work k.sched = .ok s) :
      WorkStep memory k (.link item iflag) []
        { k with sched := s, workqueue := k.workqueue ++ [item] }
  | loopAsleep {slept : Bool} {s : Sched} (hempty : k.workqueue = [])
      (hs : threadWait .work k.sched = .ok s) :
      WorkStep memory k (.loop slept) [.work (.loop true)] { k with sched := s }
  | loop {item : WorkItem} {rest : List WorkItem} {slept : Bool}
      (hitem : k.workqueue = item :: rest) :
      WorkStep memory k (.loop slept) [.work item.callback, .work .freeItem, .work (.loop false)]
        { k with workqueue := rest }
  | destroyProcess {t : ThreadId} {s : Sched} (hs : threadDestroyProcess t k.sched = .ok s) :
      WorkStep memory k (.destroyProcess t) [.work (.destroyStack t)] { k with sched := s }
  | destroyStack {t : ThreadId} {s : Sched} (hs : threadDestroyStack t k.sched = .ok s) :
      WorkStep memory k (.destroyStack t) [.work (.destroyThread t)] { k with sched := s }
  | destroyThread {t : ThreadId} {s : Sched} (hs : threadDestroyThread t k.sched = .ok s) :
      WorkStep memory k (.destroyThread t) [] { k with sched := s }
  | ramdiskHandleRequest {r : RequestId} {s : Sched} (hs : threadWakeup (.request r) k.sched = .ok s) :
      WorkStep memory k (.ramdiskHandleRequest r) [] { k with sched := s }
  | freeItem {s : Sched} (hs : threadWakeup .heap k.sched = .ok s) :
      WorkStep memory k .freeItem [] { k with sched := s }

/-- What an act of `keyboard.c` does. -/
inductive KeyboardStep (k : Kernel) : KeyboardAct → List Act → Kernel → Prop
  | readKey : KeyboardStep k .readKey [] { k with keyQueue := k.keyQueue.tail }
  | waitForKeyAsleep {slept : Bool} {s : Sched} (hempty : k.keyQueue = [])
      (hs : threadWait .work k.sched = .ok s) :
      KeyboardStep k (.waitForKey slept) [.keyboard (.waitForKey true)] { k with sched := s }
  | waitForKey {slept : Bool} {keycode : Keycode} {rest : List Keycode}
      (hkey : k.keyQueue = keycode :: rest) :
      KeyboardStep k (.waitForKey slept) [] { k with keyQueue := rest }

/-- What an act of `synch.c` does: the acts that follow, and the state. -/
inductive SynchStep (k : Kernel) : SynchAct → List Act → Kernel → Prop
  | mutexLock (x : MutexId) :
      SynchStep k (.mutexLock x) [.synch (.lockImp x .mutex)] (k.setPreemption false)
  | lockImp {x : MutexId} {caller : SynchCaller} (hp : k.sched.gPreemption = false)
      (hfree : ¬k.mutexIsHeld x) :
      SynchStep k (.lockImp x caller) [.synch (.lockTest x caller)] k
  | lockBusy {x : MutexId} {caller : SynchCaller} (hstate : (k.mutex x).state = .locked) :
      SynchStep k (.lockTest x caller) [.synch (.lockPark x caller)] (k.unwake x)
  | lockFree {x : MutexId} {caller : SynchCaller} (hstate : (k.mutex x).state = .unlocked) :
      SynchStep k (.lockTest x caller) [.synch (.lockState x caller)] k
  | lockPark {x : MutexId} {caller : SynchCaller} {s : Sched}
      (hs : threadPark (.mutex x) k.sched = .ok s) :
      SynchStep k (.lockPark x caller) [.synch (.lockParked x caller)]
        { k with sched := s }
  | lockParked (x : MutexId) (caller : SynchCaller) :
      SynchStep k (.lockParked x caller) [.synch (.lockTest x caller)] (k.setPreemption false)
  | lockState (x : MutexId) (caller : SynchCaller) :
      SynchStep k (.lockState x caller) [.synch (.lockOwner x caller)]
        ((k.setState x .locked).unwake x)
  | lockOwner (x : MutexId) (caller : SynchCaller) :
      SynchStep k (.lockOwner x caller) [.synch (.lockReturn x caller)]
        (k.setOwner x (some k.current))
  | lockReturn (x : MutexId) (caller : SynchCaller) :
      SynchStep k (.lockReturn x caller) [] ((k.setPreemption true).hold x)
  | mutexUnlock (x : MutexId) :
      SynchStep k (.mutexUnlock x) [.synch (.unlockImp x .mutex)]
        ((k.setPreemption false).unhold x)
  | unlockImp {x : MutexId} {caller : SynchCaller} (hp : k.sched.gPreemption = false)
      (hheld : k.mutexIsHeld x) :
      SynchStep k (.unlockImp x caller) [.synch (.unlockState x caller)] k
  | unlockState (x : MutexId) (caller : SynchCaller) :
      SynchStep k (.unlockState x caller) [.synch (.unlockOwner x caller)] (k.setState x .unlocked)
  | unlockOwner (x : MutexId) (caller : SynchCaller) :
      SynchStep k (.unlockOwner x caller) [.synch (.unlockTest x caller)] (k.setOwner x none)
  | unlockAlone {x : MutexId} {caller : SynchCaller}
      (hqueue : k.sched.queue (.wait (.mutex x)) = []) :
      SynchStep k (.unlockTest x caller) [caller.afterUnlock x] k
  | unlockWaited {x : MutexId} {caller : SynchCaller}
      (hqueue : k.sched.queue (.wait (.mutex x)) ≠ []) :
      SynchStep k (.unlockTest x caller) [.synch (.unlockWake x caller)] k
  | unlockWake {x : MutexId} {caller : SynchCaller} {s : Sched}
      (hs : threadWakeupOne (.mutex x) k.sched = .ok s) :
      SynchStep k (.unlockWake x caller) [caller.afterUnlock x]
        { k with
          sched := s
          woken := Function.update k.woken x
            ((k.sched.queue (.wait (.mutex x))).take 1 ++ k.woken x) }
  | unlockReturn : SynchStep k .unlockReturn [] (k.setPreemption true)
  | condWait {c : ConditionId} {x : MutexId} (hheld : k.mutexIsHeld x) :
      SynchStep k (.condWait c x) [.synch (.unlockImp x (.cond c))]
        ((k.setPreemption false).unhold x)
  | condPark {c : ConditionId} {x : MutexId} {s : Sched}
      (hs : threadPark (.cond c) k.sched = .ok s) :
      SynchStep k (.condPark c x) [.synch (.condParked c x)] { k with sched := s }
  | condParked (c : ConditionId) (x : MutexId) :
      SynchStep k (.condParked c x) [.synch (.lockImp x (.cond c))] (k.setPreemption false)
  | condSignal {c : ConditionId} {s : Sched} (hs : threadWakeupOne (.cond c) k.sched = .ok s) :
      SynchStep k (.condSignal c) [] { k with sched := s }
  | condBroadcast {c : ConditionId} {s : Sched} (hs : threadWakeup (.cond c) k.sched = .ok s) :
      SynchStep k (.condBroadcast c) [] { k with sched := s }

/-- What an act of `simulation.c` does, or of what it calls in `thread.c` and `stat.c`. -/
inductive SimulationStep (memory : Memory) (k : Kernel) :
    SimulationAct → List Act → Kernel → Prop
  | setScheduler (g : SchedulerKind) (quantum : ℕ) :
      SimulationStep memory k (.setScheduler g quantum) []
        { k with sched := { k.sched with gScheduler := g, gQuantum := quantum } }
  | runSimulation (simulation : List Job) :
      SimulationStep memory k (.runSimulation simulation)
        [.simulation (.longTermScheduler simulation [] .start), .simulation .simulationEnd]
        { k with keybMasked := true }
  | submitted (threads : List ThreadId) (c : JobCreation) :
      SimulationStep memory k (.longTermScheduler [] threads c)
        [.thread .merge, .thread (.waitForChildren threads)] k
  | submit {job : Job} {rest : List Job} {threads : List ThreadId} {c : JobCreation}
      {r : JobCreation ⊕ ThreadId} {s : Sched} (hj : JobStep memory job .attached k.sched c r s) :
      SimulationStep memory k (.longTermScheduler (job :: rest) threads c)
        [r.elim (fun c => .simulation (.longTermScheduler (job :: rest) threads c))
          fun t => .simulation (.longTermScheduler rest (threads ++ [t]) .start)]
        { k with sched := s }
  | simulationEnd : SimulationStep memory k .simulationEnd [] { k with keybMasked := false }
  | firstResponse {s : Sched} (hs : GeekOS.firstResponse k.sched = .ok s) :
      SimulationStep memory k .firstResponse [] { k with sched := s }
  | busyWait (ticks : ℕ) :
      SimulationStep memory k (.busyWait ticks)
        [.simulation (.busyWaiting k.sched.gNumticks ticks)] k
  | busyWaiting {last ticks : ℕ} (hlt : k.sched.gNumticks < (last + ticks) % 2 ^ 32) :
      SimulationStep memory k (.busyWaiting last ticks) [.simulation (.busyWaiting last ticks)] k
  | busyWaited {last ticks : ℕ} (hle : ¬k.sched.gNumticks < (last + ticks) % 2 ^ 32) :
      SimulationStep memory k (.busyWaiting last ticks) [] k

/-! ## The acts -/

section Run

variable {memory : Memory} {k k' : Kernel} {acts : List Act}

/-- `thread_create_from_job` goes on as listed. -/
theorem createFromJob_step {job : Job} {mode : ThreadMode} {again : JobCreation → Act}
    {made : ThreadId → List Act} {c : JobCreation}
    (h : k.createFromJob memory job mode again made c = .ok (acts, k')) :
    ∃ r s, JobStep memory job mode k.sched c r s ∧ acts = r.elim (fun c => [again c]) made ∧
      k' = { k with sched := s } := by
  rw [Kernel.createFromJob.eq_def] at h
  cases c with
  | alloc a =>
    rcases memAllocThread_eq_ok.mp h with ⟨q, hq, h⟩ | ⟨hq, h⟩
    · obtain ⟨rfl, s, hs, rfl⟩ := atomically_eq_ok.mp h
      exact ⟨_, s, .asleep hq hs, rfl, rfl⟩
    · obtain ⟨rfl, rfl⟩ := Prod.mk.inj h
      refine ⟨_, _, .alloc hq, ?_, rfl⟩
      cases a <;> rfl
  | pid =>
    obtain ⟨rfl, rfl⟩ := Prod.mk.inj (pure_eq_ok.mp h)
    exact ⟨_, _, .pid, rfl, rfl⟩
  | priority pid =>
    obtain ⟨rfl, rfl⟩ := Prod.mk.inj (pure_eq_ok.mp h)
    exact ⟨_, _, .priority pid, rfl, rfl⟩
  | makeNew pid priority =>
    simp only [bind_eq_ok, Prod.exists, pure_eq_ok, Prod.mk.injEq] at h
    obtain ⟨t, s, hs, rfl, rfl⟩ := h
    exact ⟨_, s, .made hs, rfl, rfl⟩

/-- An act that returns has done what is listed. -/
theorem ThreadAct.run_step {a : ThreadAct}
    (h : (Act.thread a).run memory k = .ok (acts, k')) : ThreadStep memory k a acts k' := by
  replace h : a.run memory k = .ok (acts, k') := h
  cases a with
  | idle | createPid t pid | createPriority t | merge | yield | wait q | wakeup q | wakeupOne q
  | exitFinish code =>
    obtain ⟨rfl, s, hs, rfl⟩ := atomically_eq_ok.mp h
    constructor
    exact hs
  | create mode a =>
    rw [run] at h
    rcases memAllocThread_eq_ok.mp h with ⟨q, hq, h⟩ | ⟨hq, h⟩
    · obtain ⟨rfl, s, hs, rfl⟩ := atomically_eq_ok.mp h
      exact .createAsleep hq hs
    · obtain ⟨rfl, rfl⟩ := Prod.mk.inj h
      exact .createAlloc hq
  | createArrival mode | createGenPid t =>
    obtain ⟨rfl, rfl⟩ := Prod.mk.inj (pure_eq_ok.mp h)
    constructor
  | createRun mode arrival =>
    simp only [run, bind_eq_ok, Prod.exists, pure_eq_ok, Prod.mk.injEq] at h
    obtain ⟨t, s, hs, rfl, rfl⟩ := h
    exact .create hs
  | createFromJob job mode c =>
    rw [run] at h
    obtain ⟨r, s, hj, rfl, rfl⟩ := createFromJob_step h
    exact .createFromJob hj
  | exit code =>
    simp only [run, bind_eq_ok, Prod.exists, pure_eq_ok, Prod.mk.injEq] at h
    obtain ⟨_, _, hd, rfl, rfl⟩ := h
    exact .exit hd
  | join child caller =>
    simp only [run, bind_eq_ok, Sched.deref_eq_ok, require_eq_ok, pure_eq_ok, Prod.mk.injEq] at h
    obtain ⟨th, ⟨hth, -⟩, _, hparent, rfl, rfl⟩ := h
    exact .join hth hparent
  | joinTest child caller =>
    simp only [run, bind_eq_ok] at h
    obtain ⟨b, hb, h⟩ := h
    obtain ⟨th, hth, -, -, hparent, rfl⟩ := threadNotRunning_eq_ok.mp hb
    split at h
    next hend =>
      -- the record is read again for the exit code, and nobody has stored into it since
      obtain ⟨th', hth', h⟩ := bind_eq_ok.mp h
      obtain ⟨hth', -⟩ := Sched.deref_eq_ok.mp hth'
      obtain rfl := Option.some.inj (hth.symm.trans hth')
      cases caller with
      | threadJoin =>
        simp only [bind_eq_ok, Prod.exists, pure_eq_ok, Prod.mk.injEq] at h
        obtain ⟨_, _, hd, rfl, rfl⟩ := h
        exact .threadJoin hth hparent (of_decide_eq_true hend) hd
      | waitForChildren =>
        simp only [bind_eq_ok, Prod.exists, pure_eq_ok, Prod.mk.injEq] at h
        obtain ⟨_, -, _, _, hd, rfl, rfl⟩ := h
        exact .waitForChild hth hparent (of_decide_eq_true hend) hd
    next hruns =>
      obtain ⟨rfl, s, hs, rfl⟩ := atomically_eq_ok.mp h
      exact .joinAsleep hth hparent (by simpa using hruns) hs
  | joinReturn child code =>
    obtain ⟨rfl, rfl⟩ := by simpa [run] using h
    exact .joinReturn child code
  | waitForChildren threads =>
    cases threads with
    | nil =>
      obtain ⟨rfl, rfl⟩ := by simpa [run] using h
      exact .waitForNone
    | cons child rest =>
      obtain ⟨rfl, s, hs, rfl⟩ := atomically_eq_ok.mp h
      exact .waitForChildren hs

theorem WorkAct.run_step {a : WorkAct}
    (h : (Act.work a).run memory k = .ok (acts, k')) : WorkStep memory k a acts k' := by
  replace h : a.run memory k = .ok (acts, k') := h
  cases a with
  | schedule item iflag slept =>
    rcases memAlloc_eq_ok.mp h with ⟨hmemory, h⟩ | ⟨hmemory, h⟩
    · obtain ⟨rfl, s, hs, rfl⟩ := atomically_eq_ok.mp h
      exact .scheduleAsleep hmemory hs
    · obtain ⟨rfl, rfl⟩ := by simpa using h
      exact .schedule hmemory
  | loop slept =>
    rw [run] at h
    split at h
    next hempty =>
      obtain ⟨rfl, s, hs, rfl⟩ := atomically_eq_ok.mp h
      exact .loopAsleep hempty hs
    next item rest hitem =>
      obtain ⟨rfl, rfl⟩ := by simpa using h
      exact .loop hitem
  | link item iflag | destroyProcess t | destroyStack t | destroyThread t | ramdiskHandleRequest r
  | freeItem =>
    obtain ⟨rfl, s, hs, rfl⟩ := atomically_eq_ok.mp h
    constructor
    exact hs

theorem KeyboardAct.run_step {a : KeyboardAct}
    (h : (Act.keyboard a).run memory k = .ok (acts, k')) : KeyboardStep k a acts k' := by
  replace h : a.run k = .ok (acts, k') := h
  cases a with
  | readKey =>
    obtain ⟨rfl, rfl⟩ := by simpa [run] using h
    exact .readKey
  | waitForKey slept =>
    rw [run] at h
    split at h
    next hempty =>
      obtain ⟨rfl, s, hs, rfl⟩ := atomically_eq_ok.mp h
      exact .waitForKeyAsleep hempty hs
    next keycode rest hkey =>
      obtain ⟨rfl, rfl⟩ := by simpa using h
      exact .waitForKey hkey

theorem SynchAct.run_step {a : SynchAct}
    (h : (Act.synch a).run memory k = .ok (acts, k')) : SynchStep k a acts k' := by
  replace h : a.run k = .ok (acts, k') := h
  cases a with
  | mutexLock x | lockParked x caller | lockState x caller | lockOwner x caller
  | lockReturn x caller | mutexUnlock x | unlockState x caller | unlockOwner x caller
  | unlockReturn | condParked c x =>
    obtain ⟨rfl, rfl⟩ := by simpa [run] using h
    constructor
  | lockImp x caller | unlockImp x caller =>
    simp only [run, bind_eq_ok, require_eq_ok, pure_eq_ok, Prod.mk.injEq] at h
    obtain ⟨_, hp, _, hheld, rfl, rfl⟩ := h
    constructor <;> assumption
  | condWait c x =>
    simp only [run, bind_eq_ok, require_eq_ok, pure_eq_ok, Prod.mk.injEq] at h
    obtain ⟨_, hheld, rfl, rfl⟩ := h
    exact .condWait hheld
  | lockTest x caller =>
    rw [run] at h
    split at h
    next hlocked =>
      obtain ⟨rfl, rfl⟩ := by simpa using h
      exact .lockBusy hlocked
    next hlocked =>
      obtain ⟨rfl, rfl⟩ := by simpa using h
      refine .lockFree ?_
      cases hstate : (k.mutex x).state with
      | unlocked => rfl
      | locked => exact absurd hstate hlocked
  | unlockTest x caller =>
    rw [run] at h
    split at h
    next hqueue =>
      obtain ⟨rfl, rfl⟩ := by simpa using h
      exact .unlockAlone hqueue
    next hqueue =>
      obtain ⟨rfl, rfl⟩ := by simpa using h
      exact .unlockWaited hqueue
  | lockPark x caller | condPark c x | unlockWake x caller | condSignal c | condBroadcast c =>
    obtain ⟨rfl, s, hs, rfl⟩ := atomically_eq_ok.mp h
    constructor
    exact hs

theorem SimulationAct.run_step {a : SimulationAct}
    (h : (Act.simulation a).run memory k = .ok (acts, k')) : SimulationStep memory k a acts k' := by
  replace h : a.run memory k = .ok (acts, k') := h
  cases a with
  | setScheduler g quantum | runSimulation simulation | simulationEnd | busyWait ticks =>
    obtain ⟨rfl, rfl⟩ := by simpa [run] using h
    constructor
  | firstResponse =>
    obtain ⟨rfl, s, hs, rfl⟩ := atomically_eq_ok.mp h
    exact .firstResponse hs
  | busyWaiting last ticks =>
    rw [run] at h
    split at h
    next hlt =>
      obtain ⟨rfl, rfl⟩ := by simpa using h
      exact .busyWaiting hlt
    next hle =>
      obtain ⟨rfl, rfl⟩ := by simpa using h
      exact .busyWaited hle
  | longTermScheduler joblist threads c =>
    cases joblist with
    | nil =>
      obtain ⟨rfl, rfl⟩ := by simpa [run] using h
      exact .submitted threads c
    | cons job rest =>
      rw [run] at h
      obtain ⟨r, s, hj, rfl, rfl⟩ := createFromJob_step h
      cases r <;> exact .submit hj

end Run

end GeekOS
