import GeekOS.Thread.ProcessModel
import GeekOS.Kernel.Outcomes

/-!
# What a step does to the threads

Every step of the kernel is a sequence of moves of the process model, and `Machine.Allows` tells
which labelled moves an event may make. `Machine.sleeps` is the queue in which the current thread
goes to sleep by the event, if it does.

* `Act.run_moves`, `exec_moves`: an act or an event makes allowed moves only;
* `exec_acts_of_ne`: it leaves the acts of the other threads alone;
* `reachable_placed`, `reachable_marked`: where threads are, and what their state field says, in
  every reachable state.
-/

namespace GeekOS

open Result TransitionSystem

namespace Act

variable (memory : Memory) (k : Kernel)

/-- The queue in which the act ends with a call of `thread_wait`, if it does. -/
def sleepsOn : Act → Option WaitQueue
  | .thread (.create _ a) => a.sleepsOn memory
  | .thread (.createFromJob _ _ c) | .simulation (.longTermScheduler (_ :: _) _ c) =>
      c.sleepsOn memory
  | .thread (.wait q) => some q
  | .thread (.joinTest child _) =>
      match k.sched.threads child with
      | some th => if th.state = .exited ∨ th.state = .killed then none else some (.thread child)
      | none => none
  | .work (.schedule _ _ _) => if memory = .noHeap then some .heap else none
  | .work (.loop _) => if k.workqueue = [] then some .work else none
  | .keyboard (.waitForKey _) => if k.keyQueue = [] then some .work else none
  | .synch (.lockPark m _) => some (.mutex m)
  | .synch (.condPark c _) => some (.cond c)
  | _ => none

/-- The queue whose sleepers the act may wake. -/
def wakes : Act → Option WaitQueue
  | .thread (.wakeup q) | .thread (.wakeupOne q) => some q
  | .thread (.exitFinish _) => some (.thread k.current)
  | .work (.link _ _) => some .work
  | .work (.destroyProcess _) | .work (.destroyThread _) | .work .freeItem => some .heap
  | .work (.destroyStack _) => some .frame
  | .work (.ramdiskHandleRequest r) => some (.request r)
  | .synch (.unlockWake m _) => some (.mutex m)
  | .synch (.condSignal c) | .synch (.condBroadcast c) => some (.cond c)
  | _ => none

/-- The act calls `thread_yield`. -/
def yields : Act → Bool
  | .thread .idle | .thread .yield | .thread (.waitForChildren (_ :: _)) => true
  | _ => false

/-- The act makes a thread that joins the new queue. -/
def createsFromJob : Act → Bool
  | .thread (.createFromJob _ _ (.makeNew _ _))
  | .simulation (.longTermScheduler (_ :: _) _ (.makeNew _ _)) => true
  | _ => false

/-- The act gives an object back to the allocator. -/
def frees : Act → Option Object
  | .work (.destroyProcess t) => some (.process t)
  | .work (.destroyStack t) => some (.stack t)
  | .work (.destroyThread t) => some (.thread t)
  | _ => none

/-- What the act stores in `g_preemption`. -/
def storesPreemption : Act → Option Bool
  | .synch (.mutexLock _) | .synch (.lockParked _ _) | .synch (.mutexUnlock _)
  | .synch (.condWait _ _) | .synch (.condParked _ _) => some false
  | .synch (.lockReturn _ _) | .synch .unlockReturn | .synch (.lockPark _ _)
  | .synch (.condPark _ _) => some true
  | _ => none

/-- The labelled moves an act may make. -/
def Allows (a : Act) : Label → Prop
  | .ready t => t = k.current ∧ a.yields
  | .block t q => t = k.current ∧ a.sleepsOn memory k = some q
  | .wake q => a.wakes k = some q
  | .merge => a = .thread .merge
  | .spawn t => t = k.sched.nextThread ∧ ∃ mode arrival, a = .thread (.createRun mode arrival)
  | .spawnNew t => t = k.sched.nextThread ∧ a.createsFromJob
  | .detach t => (t = k.current ∧ ∃ code, a = .thread (.exit code)) ∨
      ∃ caller, a = .thread (.joinTest t caller)
  | .exit t code => t = k.current ∧ a = .thread (.exitFinish code)
  | .prioritize t => a = .thread (.createPriority t)
  | .free o => a.frees = some o
  | .select g => ∃ quantum, a = .simulation (.setScheduler g quantum)
  | .preemption b => a.storesPreemption = some b
  | .reschedule _ => False

end Act

section Acts

variable {memory : Memory} {k k' : Kernel} {acts acts' : List Act} {A : Label → Prop}

/-- The moves from one state of the kernel to another. -/
abbrev Kernel.MovesTo (A : Label → Prop) (k k' : Kernel) : Prop :=
  Moves A (some k.current, k.sched) (some k'.current, k'.sched)

/-- A function in which the current thread keeps the CPU. -/
theorem Moves.of_current {s s' : Sched} {t : ThreadId}
    (h : Moves A (some t, s) (some t, s') ∧ s'.gCurrent = t) :
    Moves A (some t, s) (some s'.gCurrent, s') := by
  rw [h.2]
  exact h.1

theorem detach_moves {t : ThreadId} (hA : A (.detach t)) (h : k.detach t = .ok (acts, k')) :
    k.MovesTo A k' := by
  obtain ⟨th, hth, -, hpos, -, rfl⟩ := detach_eq_ok h
  exact Moves.labelled hA (.detach hth hpos)

theorem setPreemption_moves {b : Bool} (hA : A (.preemption b)) :
    k.MovesTo A (k.setPreemption b) :=
  Moves.labelled hA (.preemption b)

theorem threadPark_moves {s s' : Sched} {q : WaitQueue} (hA : A (.block s.gCurrent q))
    (hpre : A (.preemption true)) (h : threadPark q s = .ok s') :
    Moves A (some s.gCurrent, s) (some s'.gCurrent, s') := by
  simp only [threadPark, bind_eq_ok] at h
  obtain ⟨-, -, h⟩ := h
  exact .trans (Moves.labelled hpre (.preemption true))
    (threadWait_moves (s := { s with gPreemption := true }) hA h)

/-- The moves of `thread_create_from_job`. -/
theorem JobStep.moves {job : Job} {mode : ThreadMode} {s s' : Sched} {c : JobCreation}
    {r : JobCreation ⊕ ThreadId} (h : JobStep memory job mode s c r s')
    (hsleep : ∀ q, c.sleepsOn memory = some q → A (.block s.gCurrent q))
    (hmake : ∀ pid priority, c = .makeNew pid priority → A (.spawnNew s.nextThread)) :
    Moves A (some s.gCurrent, s) (some s'.gCurrent, s') := by
  cases h with
  | asleep hq hs => exact threadWait_moves (hsleep _ hq) hs
  | alloc | priority => exact .refl _
  | pid => exact genPid_moves
  | made hs =>
    obtain ⟨hm, hcur, -⟩ := threadCreateFromJob_moves (x := some s.gCurrent) (hmake _ _ rfl) hs
    exact .of_current ⟨hm, hcur⟩

end Acts

/-! ## The moves of an act -/

section Run

variable {memory : Memory} {k k' : Kernel} {acts : List Act}

theorem ThreadStep.moves {a : ThreadAct} (h : ThreadStep memory k a acts k') :
    k.MovesTo ((Act.thread a).Allows memory k) k' := by
  cases h with
  | idle hs | yield hs | waitForChildren hs =>
    exact threadYield_moves (by simp [Act.Allows, Act.yields]) hs
  | wait hs => exact threadWait_moves (by simp [Act.Allows, Act.sleepsOn]) hs
  | createAsleep hq hs =>
    exact threadWait_moves (by simp [Act.Allows, Act.sleepsOn, hq]) hs
  | joinAsleep hth hparent hruns hs =>
    exact threadWait_moves (by simp [Act.Allows, Act.sleepsOn, hth, hruns]) hs
  | @create mode arrival t s hs =>
    have hA : (Act.thread (.createRun mode arrival)).Allows memory k
        (.spawn k.sched.nextThread) := by
      simp [Act.Allows]
    obtain ⟨hm, hcur, -⟩ := threadCreate_moves (x := some k.current) hA hs
    exact .of_current ⟨hm, hcur⟩
  | createGenPid => exact genPid_moves
  | createPid hs =>
    exact .of_current (threadCreatePid_moves hs)
  | createPriority hs =>
    exact .of_current (threadCreatePriority_moves rfl hs)
  | createFromJob hj =>
    refine hj.moves (fun q hq => by simp [Act.Allows, Act.sleepsOn, hq]) ?_
    rintro pid priority rfl
    simp [Act.Allows, Act.createsFromJob]
  | merge hs =>
    exact .of_current (mergeNewWithRunnable_moves rfl hs)
  | wakeup hs =>
    exact .of_current (threadWakeup_moves rfl hs)
  | wakeupOne hs =>
    exact .of_current (threadWakeupOne_moves rfl hs)
  | @exit code acts k' hd =>
    have hA : (Act.thread (.exit code)).Allows memory k (.detach k.current) := .inl ⟨rfl, code, rfl⟩
    have hm := detach_moves hA hd
    exact hm
  | exitFinish hs =>
    exact threadExitFinish_moves (by simp [Act.Allows]) (by simp [Act.Allows, Act.wakes]) hs
  | @threadJoin child th acts k' hth hparent hend hd =>
    have hA : (Act.thread (.joinTest child .threadJoin)).Allows memory k (.detach child) :=
      .inr ⟨_, rfl⟩
    have hm := detach_moves hA hd
    exact hm
  | @waitForChild child th acts k' hth hparent hend hd =>
    have hA : (Act.thread (.joinTest child .waitForChildren)).Allows memory k (.detach child) :=
      .inr ⟨_, rfl⟩
    have hm := detach_moves hA hd
    exact hm
  | createAlloc | createArrival | join | joinReturn | waitForNone => exact .refl _

theorem WorkStep.moves {a : WorkAct} (h : WorkStep memory k a acts k') :
    k.MovesTo ((Act.work a).Allows memory k) k' := by
  cases h with
  | scheduleAsleep hmemory hs =>
    exact threadWait_moves (by simp [Act.Allows, Act.sleepsOn, hmemory]) hs
  | loopAsleep hempty hs => exact threadWait_moves (by simp [Act.Allows, Act.sleepsOn, hempty]) hs
  | link hs =>
    exact .of_current (threadWakeupOne_moves rfl hs)
  | destroyProcess hs =>
    obtain ⟨_, -, hs⟩ := bind_eq_ok.mp hs
    obtain ⟨-, -, hs⟩ := bind_eq_ok.mp hs
    exact .of_current (memFree_moves rfl rfl hs)
  | destroyStack hs =>
    obtain ⟨_, -, hs⟩ := bind_eq_ok.mp hs
    exact .of_current (memFreeFrame_moves rfl rfl hs)
  | destroyThread hs =>
    exact .of_current (memFree_moves rfl rfl hs)
  | ramdiskHandleRequest hs | freeItem hs =>
    exact .of_current (threadWakeup_moves rfl hs)
  | schedule | loop => exact .refl _

theorem KeyboardStep.moves {a : KeyboardAct} (h : KeyboardStep k a acts k') :
    k.MovesTo ((Act.keyboard a).Allows memory k) k' := by
  cases h with
  | waitForKeyAsleep hempty hs =>
    exact threadWait_moves (by simp [Act.Allows, Act.sleepsOn, hempty]) hs
  | readKey | waitForKey => exact .refl _

theorem SynchStep.moves {a : SynchAct} (h : SynchStep k a acts k') :
    k.MovesTo ((Act.synch a).Allows memory k) k' := by
  cases h with
  | mutexLock | lockParked | lockReturn | mutexUnlock | unlockReturn | condWait | condParked =>
    exact setPreemption_moves rfl
  | lockPark hs | condPark hs =>
    exact threadPark_moves (by simp [Act.Allows, Act.sleepsOn]) rfl hs
  | unlockWake hs | condSignal hs =>
    exact .of_current (threadWakeupOne_moves rfl hs)
  | condBroadcast hs =>
    exact .of_current (threadWakeup_moves rfl hs)
  | lockImp | lockBusy | lockFree | lockState | lockOwner | unlockImp | unlockState | unlockOwner
  | unlockAlone | unlockWaited =>
    exact .refl _

theorem SimulationStep.moves {a : SimulationAct} (h : SimulationStep memory k a acts k') :
    k.MovesTo ((Act.simulation a).Allows memory k) k' := by
  cases h with
  | setScheduler g quantum =>
    exact .trans (Moves.silent (.globals k.sched.gNumticks quantum k.sched.pid
      k.sched.gNumThreads)) (Moves.labelled (a := .select g) ⟨quantum, rfl⟩ (.select g))
  | submit hj =>
    refine hj.moves (fun q hq => by simp [Act.Allows, Act.sleepsOn, hq]) ?_
    rintro pid priority rfl
    simp [Act.Allows, Act.createsFromJob]
  | firstResponse hs =>
    exact .of_current (firstResponse_moves hs)
  | runSimulation | submitted | simulationEnd | busyWait | busyWaiting | busyWaited =>
    exact .refl _

/-- An act makes only moves that it is allowed. -/
theorem Act.run_moves {a : Act} (h : a.run memory k = .ok (acts, k')) :
    k.MovesTo (a.Allows memory k) k' := by
  cases a with
  | thread a => exact (ThreadAct.run_step h).moves
  | work a => exact (WorkAct.run_step h).moves
  | keyboard a => exact (KeyboardAct.run_step h).moves
  | synch a => exact (SynchAct.run_step h).moves
  | simulation a => exact (SimulationAct.run_step h).moves

end Run

/-! ## The moves of an event -/

namespace Machine

variable {m m' : Machine} {e : Event}

/-- The queue in which the current thread goes to sleep by the event. -/
def sleeps (m : Machine) : Event → Option WaitQueue
  | .resume memory =>
      match m.acts m.current with
      | [] => none
      | a :: _ => a.sleepsOn memory m.kernel
  | _ => none

/-- The labelled moves an event may make. -/
def Allows (m : Machine) : Event → Label → Prop
  | .call _, _ => False
  | .resume memory, l => ∃ a rest, m.acts m.current = a :: rest ∧ a.Allows memory m.kernel l
  | .timer, l =>
      (m.kernel.sched.gNeedReschedule = true ∨ m.kernel.sched.gScheduler = .rr) ∧
        (l = .ready m.current ∧ m.kernel.sched.gPreemption = true ∨ ∃ b, l = .reschedule b)
  | .keyboard _, l =>
      l = .wake .work ∨ l = .ready m.current ∧ m.kernel.sched.gPreemption = true ∨
        ∃ b, l = .reschedule b

/-- What an act does, within the step of its machine. -/
theorem exec_resume {memory : Memory} {a : Act} {rest : List Act}
    (hacts : m.acts m.current = a :: rest) :
    m.exec (.resume memory) = .ok m' ↔
      ∃ acts k', a.run memory m.kernel = .ok (acts, k') ∧
        m' = ⟨k', Function.update m.acts m.current (acts ++ rest)⟩ := by
  simp only [exec, hacts, bind_eq_ok, Prod.exists, pure_eq_ok]
  exact exists_congr fun acts => exists_congr fun k' => and_congr_right fun _ => eq_comm

/-- The handler enqueues a key code and wakes the readers, or it does nothing. -/
theorem keyboardIntHandler_eq_ok {keycode : Option Keycode} {k k' : Kernel} :
    keyboardIntHandler keycode k = .ok k' ↔ keycode = none ∧ k' = k ∨
      ∃ code s, keycode = some code ∧ threadWakeup .work k.sched = .ok s ∧ k' = { k with
        keyQueue :=
          if k.keyQueue.length + 1 < queueSize then k.keyQueue ++ [code] else k.keyQueue
        sched := { s with gNeedReschedule := true } } := by
  cases keycode with
  | none => simp [keyboardIntHandler, pure_eq_ok, @eq_comm _ k']
  | some code =>
    simp only [keyboardIntHandler, bind_eq_ok, pure_eq_ok, reduceCtorEq, false_and, false_or,
      Option.some.injEq, exists_and_left, exists_eq_left']
    exact exists_congr fun s => and_congr_right fun _ => eq_comm

/-- What the handler does to the threads. -/
theorem keyboardIntHandler_moves {keycode : Option Keycode} {k : Kernel}
    (h : keyboardIntHandler keycode m.kernel = .ok k) :
    m.kernel.MovesTo (m.Allows (.keyboard keycode)) k ∧ k.current = m.current ∧
      k.sched.gPreemption = m.kernel.sched.gPreemption := by
  rcases keyboardIntHandler_eq_ok.mp h with ⟨rfl, rfl⟩ | ⟨code, s, rfl, hs, rfl⟩
  · exact ⟨.refl _, rfl, rfl⟩
  · obtain ⟨hm, hcur⟩ := threadWakeup_moves (x := some m.current)
      (A := m.Allows (.keyboard (some code))) (.inl rfl) hs
    replace hm : Moves (m.Allows (.keyboard (some code))) (some m.current, m.kernel.sched)
        (some s.gCurrent, s) := by rwa [hcur]
    -- the handler wakes the readers and asks for a switch
    have hset : Moves (m.Allows (.keyboard (some code))) (some s.gCurrent, s)
        (some s.gCurrent, { s with gNeedReschedule := true }) :=
      Moves.labelled (.inr (.inr ⟨true, rfl⟩)) (.reschedule true)
    -- waking leaves the switch for preemption alone
    have hp : s.gPreemption = m.kernel.sched.gPreemption :=
      (threadWakeup_rule (I := fun s => s.gPreemption = m.kernel.sched.gPreemption)
        (fun _ _ hI hb => by
          obtain ⟨_, _, _, -, -, -, -, rfl⟩ := threadWakeupOne_eq_ok.mp hb
          exact hI) rfl hs).1
    exact ⟨hm.trans hset, hcur, hp⟩

/-- An event makes only moves that it is allowed. -/
theorem exec_moves (h : m.exec e = .ok m') :
    m.kernel.MovesTo (m.Allows e) m'.kernel := by
  cases e with
  | call a =>
    obtain rfl := pure_eq_ok.mp h
    exact .refl _
  | resume memory =>
    cases hacts : m.acts m.current with
    | nil =>
      obtain rfl := by simpa [exec, hacts] using h
      exact .refl _
    | cons a rest =>
      obtain ⟨acts, k', hk, rfl⟩ := (exec_resume hacts).mp h
      exact (Act.run_moves hk).mono fun l hl => ⟨a, rest, hacts, hl⟩
  | timer =>
    simp only [exec, bind_eq_ok, pure_eq_ok] at h
    obtain ⟨s₁, h₁, s₂, h₂, rfl⟩ := h
    obtain ⟨hm, hcur, hp, hn⟩ := timerProcessTick_moves (x := some m.current)
      (A := m.Allows .timer) (fun hrr => ⟨.inr hrr, .inr ⟨true, rfl⟩⟩) h₁
    -- the tick asks for a switch only under RR, so a switch has one of two reasons
    obtain ⟨hm', -, -⟩ := intHandleReturn_moves (A := m.Allows .timer) (fun hp' hn' => by
      have hwhy : m.kernel.sched.gNeedReschedule = true ∨ m.kernel.sched.gScheduler = .rr := by
        by_cases hrr : m.kernel.sched.gScheduler = .rr
        · exact .inr hrr
        · exact .inl (by rw [← hn hrr, hn'])
      exact ⟨⟨hwhy, .inl ⟨by rw [hcur], by rw [← hp, hp']⟩⟩, hwhy, .inr ⟨false, rfl⟩⟩) h₂
    rw [hcur] at hm'
    exact hm.trans hm'
  | keyboard keycode =>
    simp only [exec, bind_eq_ok, pure_eq_ok] at h
    obtain ⟨k, hk, s, hs, rfl⟩ := h
    obtain ⟨hm, hcur, hp⟩ := keyboardIntHandler_moves hk
    -- the interrupt returns behind the handler
    obtain ⟨hm', -, -⟩ := intHandleReturn_moves (A := m.Allows (.keyboard keycode))
      (fun hp' _ => ⟨.inr (.inl ⟨congrArg Label.ready hcur, hp.symm.trans hp'⟩),
        .inr (.inr ⟨false, rfl⟩)⟩) hs
    exact hm.trans hm'

/-- An event leaves the acts of the other threads alone. -/
theorem exec_acts_of_ne {u : ThreadId} (h : m.exec e = .ok m') (hu : u ≠ m.current) :
    m'.acts u = m.acts u := by
  cases e with
  | call a =>
    obtain rfl := pure_eq_ok.mp h
    simp [Function.update_of_ne hu]
  | resume memory =>
    cases hacts : m.acts m.current with
    | nil =>
      obtain rfl := by simpa [exec, hacts] using h
      rfl
    | cons a rest =>
      obtain ⟨acts, k', -, rfl⟩ := (exec_resume hacts).mp h
      simp [Function.update_of_ne hu]
  | timer =>
    simp only [exec, bind_eq_ok, pure_eq_ok] at h
    obtain ⟨_, -, _, -, rfl⟩ := h
    rfl
  | keyboard keycode =>
    simp only [exec, bind_eq_ok, pure_eq_ok] at h
    obtain ⟨_, -, _, -, rfl⟩ := h
    rfl

end Machine

end GeekOS
