import GeekOS.Kernel.Frames

/-!
# The control flow of the kernel

`Act.Follows` lists, for every act, the acts a thread may go through next in its place. An
invariant about where the control of a thread stands is read off this list.

* `Act.run_follows`: the list is complete;
* `Act.Follows.leadsTo`: the same act by act, for what concerns a single one;
* `Machine.step_cases`: what an event does to the acts of the threads;
* `Machine.mem_acts_of_step`: an act in front of a thread after a step was there before, is the
  function just called, or follows the act that was carried out.
-/

namespace GeekOS

open Result

/-- How `thread_create_from_job` may go on. -/
def JobCreation.Goes (nextThread : ThreadId) : JobCreation → JobCreation ⊕ ThreadId → Prop
  | .alloc a, r => r = .inl (.alloc a.asleep) ∨ r = .inl (a.next.elim .pid .alloc)
  | .pid, r => ∃ n, r = .inl (.priority n)
  | .priority n, r => ∃ p, r = .inl (.makeNew n p)
  | .makeNew _ _, r => r = .inr nextThread

/-- What may follow an act. -/
def Act.Follows (k : Kernel) : Act → List Act → Prop
  | .thread .idle, l => l = [.thread .idle]
  | .thread (.create mode a), l =>
      l = [.thread (.create mode a.asleep)] ∨
        l = [a.next.elim (.thread (.createArrival mode)) fun a => .thread (.create mode a)]
  | .thread (.createArrival mode), l => ∃ arrival, l = [.thread (.createRun mode arrival)]
  | .thread (.createRun _ _), l => l = [.thread (.createGenPid k.sched.nextThread)]
  | .thread (.createGenPid t), l => ∃ pid, l = [.thread (.createPid t pid)]
  | .thread (.createPid t _), l => l = [.thread (.createPriority t)]
  | .thread (.createFromJob job mode c), l => ∃ r, c.Goes k.sched.nextThread r ∧
      l = r.elim (fun c => [.thread (.createFromJob job mode c)]) fun _ => []
  | .thread (.exit code), l =>
      l = [.thread (.exitFinish code)] ∨
        l = [.work (.schedule (.threadDestroy k.current) false false), .thread (.exitFinish code)]
  | .thread (.join child caller), l => l = [.thread (.joinTest child caller)]
  | .thread (.joinTest child .threadJoin), l =>
      l = [.thread (.joinTest child .threadJoin)] ∨
        ∃ code, l = [.thread (.joinReturn child code)] ∨
          l = [.work (.schedule (.threadDestroy child) false false),
            .thread (.joinReturn child code)]
  | .thread (.joinTest child .waitForChildren), l =>
      l = [.thread (.joinTest child .waitForChildren)] ∨ l = [] ∨
        l = [.work (.schedule (.threadDestroy child) false false)]
  | .thread (.waitForChildren threads), l =>
      threads = [] ∧ l = [] ∨ ∃ child rest, threads = child :: rest ∧
        l = [.thread (.join child .waitForChildren), .thread (.waitForChildren rest)]
  | .work (.schedule item iflag _), l =>
      l = [.work (.schedule item iflag true)] ∨ l = [.work (.link item iflag)]
  | .work (.loop _), l =>
      l = [.work (.loop true)] ∨ ∃ item rest, k.workqueue = item :: rest ∧
        l = [.work item.callback, .work .freeItem, .work (.loop false)]
  | .work (.destroyProcess t), l => l = [.work (.destroyStack t)]
  | .work (.destroyStack t), l => l = [.work (.destroyThread t)]
  | .keyboard (.waitForKey _), l => l = [.keyboard (.waitForKey true)] ∨ l = []
  | .synch (.mutexLock m), l => l = [.synch (.lockImp m .mutex)]
  | .synch (.lockImp m caller), l => l = [.synch (.lockTest m caller)]
  | .synch (.lockTest m caller), l =>
      l = [.synch (.lockPark m caller)] ∨ l = [.synch (.lockState m caller)]
  | .synch (.lockPark m caller), l => l = [.synch (.lockParked m caller)]
  | .synch (.lockParked m caller), l => l = [.synch (.lockTest m caller)]
  | .synch (.lockState m caller), l => l = [.synch (.lockOwner m caller)]
  | .synch (.lockOwner m caller), l => l = [.synch (.lockReturn m caller)]
  | .synch (.mutexUnlock m), l => l = [.synch (.unlockImp m .mutex)]
  | .synch (.unlockImp m caller), l => l = [.synch (.unlockState m caller)]
  | .synch (.unlockState m caller), l => l = [.synch (.unlockOwner m caller)]
  | .synch (.unlockOwner m caller), l => l = [.synch (.unlockTest m caller)]
  | .synch (.unlockTest m caller), l =>
      l = [caller.afterUnlock m] ∨ l = [.synch (.unlockWake m caller)]
  | .synch (.unlockWake m caller), l => l = [caller.afterUnlock m]
  | .synch (.condWait c m), l => l = [.synch (.unlockImp m (.cond c))]
  | .synch (.condPark c m), l => l = [.synch (.condParked c m)]
  | .synch (.condParked c m), l => l = [.synch (.lockImp m (.cond c))]
  | .simulation (.runSimulation jobs), l =>
      l = [.simulation (.longTermScheduler jobs [] .start), .simulation .simulationEnd]
  | .simulation (.longTermScheduler joblist threads c), l =>
      joblist = [] ∧ l = [.thread .merge, .thread (.waitForChildren threads)] ∨
        ∃ job rest r, joblist = job :: rest ∧ c.Goes k.sched.nextThread r ∧
          l = [r.elim (fun c => .simulation (.longTermScheduler joblist threads c))
            fun t => .simulation (.longTermScheduler rest (threads ++ [t]) .start)]
  | .simulation (.busyWait ticks), l =>
      l = [.simulation (.busyWaiting k.sched.gNumticks ticks)]
  | .simulation (.busyWaiting last ticks), l =>
      l = [.simulation (.busyWaiting last ticks)] ∨ l = []
  | _, l => l = []

section Run

variable {memory : Memory} {k k' : Kernel} {acts acts' : List Act}

theorem detach_acts {t : ThreadId} (h : k.detach t = .ok (acts, k')) :
    acts = [] ∨ acts = [.work (.schedule (.threadDestroy t) false false)] := by
  obtain ⟨th, -, -, -, rfl, -⟩ := detach_eq_ok h
  by_cases hone : th.refcount = 1
  · exact .inr (by rw [if_pos hone])
  · exact .inl (by rw [if_neg hone])

theorem JobStep.goes {job : Job} {mode : ThreadMode} {s s' : Sched} {c : JobCreation}
    {r : JobCreation ⊕ ThreadId} (h : JobStep memory job mode s c r s') :
    c.Goes s.nextThread r := by
  cases h with
  | asleep => exact .inl rfl
  | alloc => exact .inr rfl
  | pid | priority => exact ⟨_, rfl⟩
  | made hs =>
    -- the new thread is the next identity
    obtain ⟨rfl, -⟩ := threadCreateFromJob_eq_ok hs
    rfl

theorem ThreadStep.follows {a : ThreadAct} (h : ThreadStep memory k a acts k') :
    (Act.thread a).Follows k acts := by
  cases h with
  | createAsleep => exact .inl rfl
  | createAlloc => exact .inr rfl
  | createArrival | createGenPid => exact ⟨_, rfl⟩
  | create hs =>
    obtain ⟨rfl, -⟩ := threadCreate_eq_ok hs
    rfl
  | createFromJob hj => exact ⟨_, hj.goes, rfl⟩
  | exit hd => rcases detach_acts hd with rfl | rfl <;> simp [Act.Follows]
  | @joinAsleep child caller => cases caller <;> exact .inl rfl
  | threadJoin hth hparent hend hd =>
    rcases detach_acts hd with rfl | rfl
    · exact .inr ⟨_, .inl rfl⟩
    · exact .inr ⟨_, .inr rfl⟩
  | waitForChild hth hparent hend hd =>
    rcases detach_acts hd with rfl | rfl
    · exact .inr (.inl rfl)
    · exact .inr (.inr rfl)
  | waitForNone => exact .inl ⟨rfl, rfl⟩
  | waitForChildren => exact .inr ⟨_, _, rfl, rfl⟩
  | _ => rfl

theorem WorkStep.follows {a : WorkAct} (h : WorkStep memory k a acts k') :
    (Act.work a).Follows k acts := by
  cases h with
  | scheduleAsleep | loopAsleep => exact .inl rfl
  | schedule => exact .inr rfl
  | loop hitem => exact .inr ⟨_, _, hitem, rfl⟩
  | _ => rfl

theorem KeyboardStep.follows {a : KeyboardAct} (h : KeyboardStep k a acts k') :
    (Act.keyboard a).Follows k acts := by
  cases h with
  | readKey => rfl
  | waitForKeyAsleep => exact .inl rfl
  | waitForKey => exact .inr rfl

theorem SynchStep.follows {a : SynchAct} (h : SynchStep k a acts k') :
    (Act.synch a).Follows k acts := by
  cases h with
  | lockBusy | unlockAlone => exact .inl rfl
  | lockFree | unlockWaited => exact .inr rfl
  | _ => rfl

theorem SimulationStep.follows {a : SimulationAct} (h : SimulationStep memory k a acts k') :
    (Act.simulation a).Follows k acts := by
  cases h with
  | busyWaiting => exact .inl rfl
  | busyWaited => exact .inr rfl
  | submitted => exact .inl ⟨rfl, rfl⟩
  | submit hj => exact .inr ⟨_, _, _, rfl, hj.goes, rfl⟩
  | _ => rfl

/-- Every act is followed as listed. -/
theorem Act.run_follows {a : Act} (h : a.run memory k = .ok (acts, k')) : a.Follows k acts := by
  cases a with
  | thread a => exact (ThreadAct.run_step h).follows
  | work a => exact (WorkAct.run_step h).follows
  | keyboard a => exact (KeyboardAct.run_step h).follows
  | synch a => exact (SynchAct.run_step h).follows
  | simulation a => exact (SimulationAct.run_step h).follows

end Run

/-- `b` may be among the acts that follow `a`. -/
inductive Act.LeadsTo (k : Kernel) : Act → Act → Prop
  | idle : LeadsTo k (.thread .idle) (.thread .idle)
  | create {mode : ThreadMode} {a a' : Allocation} :
      LeadsTo k (.thread (.create mode a)) (.thread (.create mode a'))
  | createArrival {mode : ThreadMode} {a : Allocation} :
      LeadsTo k (.thread (.create mode a)) (.thread (.createArrival mode))
  | createRun {mode : ThreadMode} {arrival : ℕ} :
      LeadsTo k (.thread (.createArrival mode)) (.thread (.createRun mode arrival))
  | createGenPid {mode : ThreadMode} {arrival : ℕ} :
      LeadsTo k (.thread (.createRun mode arrival)) (.thread (.createGenPid k.sched.nextThread))
  | createPid {t : ThreadId} {pid : ℕ} :
      LeadsTo k (.thread (.createGenPid t)) (.thread (.createPid t pid))
  | createPriority {t : ThreadId} {pid : ℕ} :
      LeadsTo k (.thread (.createPid t pid)) (.thread (.createPriority t))
  | createFromJob {job : Job} {mode : ThreadMode} {c c' : JobCreation} :
      LeadsTo k (.thread (.createFromJob job mode c)) (.thread (.createFromJob job mode c'))
  | exitFinish {code : ℤ} : LeadsTo k (.thread (.exit code)) (.thread (.exitFinish code))
  | exitSchedule {code : ℤ} : LeadsTo k (.thread (.exit code))
      (.work (.schedule (.threadDestroy k.current) false false))
  | join {child : ThreadId} {caller : JoinCaller} :
      LeadsTo k (.thread (.join child caller)) (.thread (.joinTest child caller))
  | joinAgain {child : ThreadId} {caller : JoinCaller} :
      LeadsTo k (.thread (.joinTest child caller)) (.thread (.joinTest child caller))
  | joinReturn {child : ThreadId} {code : ℤ} :
      LeadsTo k (.thread (.joinTest child .threadJoin)) (.thread (.joinReturn child code))
  | joinSchedule {child : ThreadId} {caller : JoinCaller} :
      LeadsTo k (.thread (.joinTest child caller))
        (.work (.schedule (.threadDestroy child) false false))
  | waitForChild {child : ThreadId} {rest : List ThreadId} :
      LeadsTo k (.thread (.waitForChildren (child :: rest)))
        (.thread (.join child .waitForChildren))
  | waitForChildren {child : ThreadId} {rest : List ThreadId} :
      LeadsTo k (.thread (.waitForChildren (child :: rest))) (.thread (.waitForChildren rest))
  | scheduleAgain {item : WorkItem} {iflag slept : Bool} :
      LeadsTo k (.work (.schedule item iflag slept)) (.work (.schedule item iflag true))
  | link {item : WorkItem} {iflag slept : Bool} :
      LeadsTo k (.work (.schedule item iflag slept)) (.work (.link item iflag))
  | loopAgain {slept slept' : Bool} :
      LeadsTo k (.work (.loop slept)) (.work (.loop slept'))
  | destroyProcess {slept : Bool} {t : ThreadId} (hitem : .threadDestroy t ∈ k.workqueue) :
      LeadsTo k (.work (.loop slept)) (.work (.destroyProcess t))
  | ramdiskHandleRequest {slept : Bool} {r : RequestId} :
      LeadsTo k (.work (.loop slept)) (.work (.ramdiskHandleRequest r))
  | freeItem {slept : Bool} : LeadsTo k (.work (.loop slept)) (.work .freeItem)
  | destroyStack {t : ThreadId} :
      LeadsTo k (.work (.destroyProcess t)) (.work (.destroyStack t))
  | destroyThread {t : ThreadId} :
      LeadsTo k (.work (.destroyStack t)) (.work (.destroyThread t))
  | waitForKey {slept : Bool} :
      LeadsTo k (.keyboard (.waitForKey slept)) (.keyboard (.waitForKey true))
  | synch {a b : SynchAct} (hb : (Act.synch b).isCall = false) : LeadsTo k (.synch a) (.synch b)
  | simulationEnd {jobs : List Job} :
      LeadsTo k (.simulation (.runSimulation jobs)) (.simulation .simulationEnd)
  | runSimulation {jobs : List Job} :
      LeadsTo k (.simulation (.runSimulation jobs))
        (.simulation (.longTermScheduler jobs [] .start))
  | longTermSchedulerAgain {joblist : List Job} {threads : List ThreadId} {c c' : JobCreation} :
      LeadsTo k (.simulation (.longTermScheduler joblist threads c))
        (.simulation (.longTermScheduler joblist threads c'))
  | longTermScheduler {job : Job} {rest : List Job} {threads : List ThreadId}
      {pid : ℕ} {priority : ℤ} :
      LeadsTo k (.simulation (.longTermScheduler (job :: rest) threads (.makeNew pid priority)))
        (.simulation (.longTermScheduler rest (threads ++ [k.sched.nextThread]) .start))
  | merge {threads : List ThreadId} {c : JobCreation} :
      LeadsTo k (.simulation (.longTermScheduler [] threads c)) (.thread .merge)
  | waitForThreads {threads : List ThreadId} {c : JobCreation} :
      LeadsTo k (.simulation (.longTermScheduler [] threads c))
        (.thread (.waitForChildren threads))
  | busyWaiting {ticks : ℕ} :
      LeadsTo k (.simulation (.busyWait ticks))
        (.simulation (.busyWaiting k.sched.gNumticks ticks))
  | busyWaitingAgain {last ticks : ℕ} :
      LeadsTo k (.simulation (.busyWaiting last ticks)) (.simulation (.busyWaiting last ticks))

attribute [grind intro] Act.LeadsTo

/-- `thread_create_from_job` goes on, or it has made the next thread. -/
theorem JobCreation.Goes.cases {n : ThreadId} {c : JobCreation} {r : JobCreation ⊕ ThreadId}
    (h : c.Goes n r) :
    (∃ c', r = .inl c') ∨ r = .inr n ∧ ∃ pid priority, c = .makeNew pid priority := by
  cases c with
  | alloc a => rcases h with rfl | rfl <;> exact .inl ⟨_, rfl⟩
  | pid =>
    obtain ⟨n, rfl⟩ := h
    exact .inl ⟨_, rfl⟩
  | priority n =>
    obtain ⟨p, rfl⟩ := h
    exact .inl ⟨_, rfl⟩
  | makeNew pid priority => exact .inr ⟨h, pid, priority, rfl⟩

/-- An act that follows another is one of those it leads to. -/
theorem Act.Follows.leadsTo {k : Kernel} {a b : Act} {acts : List Act} (h : a.Follows k acts)
    (hb : b ∈ acts) : a.LeadsTo k b := by
  cases a with
  | thread a =>
    cases a with
    | joinTest child caller => cases caller <;> simp only [Act.Follows] at h <;> grind
    | create mode a =>
      rcases h with rfl | rfl
      · grind
      · cases hnext : a.next <;> simp [hnext] at hb <;> grind
    | createFromJob job mode c =>
      obtain ⟨r, hr, rfl⟩ := h
      rcases hr.cases with ⟨c', rfl⟩ | ⟨rfl, -⟩
      · obtain rfl := List.mem_singleton.mp hb
        exact .createFromJob
      · simp at hb
    | _ => simp only [Act.Follows] at h; grind
  | work a =>
    cases a with
    | loop slept =>
      rcases h with rfl | ⟨item, rest, hitem, rfl⟩
      · grind
      · cases item <;> grind [WorkItem.callback]
    | _ => simp only [Act.Follows] at h; grind
  | keyboard a => cases a <;> simp only [Act.Follows] at h <;> grind
  | synch a =>
    cases a with
    | unlockTest x caller | unlockWake x caller =>
      cases caller <;> simp only [Act.Follows, SynchCaller.afterUnlock] at h <;>
        grind [isCall]
    | _ => simp only [Act.Follows] at h; grind [isCall]
  | simulation a =>
    cases a with
    | longTermScheduler joblist threads c =>
      rcases h with ⟨rfl, rfl⟩ | ⟨job, rest, r, rfl, hr, rfl⟩
      · grind
      · rcases hr.cases with ⟨c', rfl⟩ | ⟨rfl, pid, priority, rfl⟩
        · obtain rfl := List.mem_singleton.mp hb
          exact .longTermSchedulerAgain
        · obtain rfl := List.mem_singleton.mp hb
          exact .longTermScheduler
    | _ => simp only [Act.Follows] at h; grind

namespace Machine

variable {m m' : Machine} {e : Event} {a : Act} {u : ThreadId}

/-- What an event can be, and what it does to the acts: an interrupt, a call by the current
thread, or its next act. -/
theorem step_cases (h : m.Step e m') :
    (e.IsInterrupt ∧ m'.acts = m.acts) ∨
    (∃ a, e = .call a ∧ m.acts m.current = [] ∧ a.isCall = true ∧
      m' = { m with acts := Function.update m.acts m.current [a] }) ∨
    ∃ memory a rest acts k', e = .resume memory ∧ m.acts m.current = a :: rest ∧
      a.run memory m.kernel = .ok (acts, k') ∧
      m' = ⟨k', Function.update m.acts m.current (acts ++ rest)⟩ := by
  cases e with
  | call a =>
    obtain rfl := pure_eq_ok.mp h.2
    exact .inr (.inl ⟨a, rfl, h.1.1, h.1.2, rfl⟩)
  | resume memory =>
    cases hacts : m.acts m.current with
    | nil => exact absurd hacts h.1
    | cons a rest =>
      obtain ⟨acts, k', hk, rfl⟩ := (exec_resume hacts).mp h.2
      exact .inr (.inr ⟨memory, a, rest, acts, k', rfl, rfl, hk, rfl⟩)
  | timer => exact .inl ⟨trivial, (exec_interrupt h.2 trivial).1⟩
  | keyboard keycode => exact .inl ⟨trivial, (exec_interrupt h.2 trivial).1⟩

/-- An act in front of a thread was there before, or the thread has just called it, or it
follows the act that the thread has just gone through. -/
theorem mem_acts_of_step (h : m.Step e m') (ha : a ∈ m'.acts u) :
    a ∈ m.acts u ∨ u = m.current ∧ m.acts u = [] ∧ a.isCall = true ∧ e = .call a ∨
      u = m.current ∧ ∃ memory b rest acts k', e = .resume memory ∧ m.acts u = b :: rest ∧
        b.run memory m.kernel = .ok (acts, k') ∧ m'.kernel = k' ∧ a ∈ acts := by
  by_cases hu : u = m.current
  · subst hu
    rcases step_cases h with ⟨-, hacts⟩ | ⟨b, rfl, hnil, hcall, rfl⟩ |
      ⟨memory, b, rest, acts, k', rfl, hacts, hk, rfl⟩
    · exact .inl (hacts ▸ ha)
    · obtain rfl : a = b := by simpa using ha
      exact .inr (.inl ⟨rfl, hnil, hcall, rfl⟩)
    · rcases List.mem_append.mp (by simpa using ha) with ha | ha
      · exact .inr (.inr ⟨rfl, memory, b, rest, acts, k', rfl, hacts, hk, rfl, ha⟩)
      · exact .inl (hacts ▸ List.mem_cons_of_mem _ ha)
  · exact .inl (exec_acts_of_ne h.2 hu ▸ ha)

end Machine

end GeekOS
