import GeekOS.Kernel.Reachable

/-!
# The five-state process model

`docs/features.md` promises that the state field of a thread tells where the thread is. No
function of the kernel stores `THREAD_WAITING`, so the promise holds exactly as long as no thread
goes to sleep: `fiveStates_iff_never_sleeps`.
-/

namespace GeekOS

open Result TransitionSystem

section Sleep

variable {memory : Memory} {k k' : Kernel} {acts : List Act} {q : WaitQueue}

/-- `thread_wait` leaves its caller in the queue. -/
theorem mem_queue_of_threadWait {s s' : Sched} (h : threadWait q s = .ok s') :
    s.gCurrent ∈ s'.queue (.wait q) := by
  simp only [threadWait, bind_eq_ok, threadSchedule, Prod.exists, threadNextRunnable_eq_ok,
    threadSwitchTo, pure_eq_ok, threadRelinquishCpu_eq_ok] at h
  obtain ⟨_, -, s₁, ⟨th, -, -, -, rfl⟩, t, _, ⟨rest, tht, -, -, -, -, rfl⟩, _, -, rfl⟩ := h
  simp [threadQueueAppend]

theorem mem_queue_of_threadPark {s s' : Sched} (h : threadPark q s = .ok s') :
    s.gCurrent ∈ s'.queue (.wait q) := by
  simp only [threadPark, bind_eq_ok] at h
  obtain ⟨-, -, h⟩ := h
  exact mem_queue_of_threadWait (s := { s with gPreemption := true }) h

/-- `thread_create_from_job` leaves its caller in the queue in which it lets it sleep. -/
theorem JobStep.mem_queue {job : Job} {mode : ThreadMode} {s s' : Sched} {c : JobCreation}
    {r : JobCreation ⊕ ThreadId} (h : JobStep memory job mode s c r s')
    (hq : c.sleepsOn memory = some q) : s.gCurrent ∈ s'.queue (.wait q) := by
  cases h with
  | asleep hq' hs =>
    obtain rfl := Option.some.inj (hq'.symm.trans hq)
    exact mem_queue_of_threadWait hs
  | alloc hq' => simp [JobCreation.sleepsOn, hq'] at hq
  | _ => simp [JobCreation.sleepsOn] at hq

theorem ThreadStep.mem_queue {a : ThreadAct} (h : ThreadStep memory k a acts k')
    (hq : (Act.thread a).sleepsOn memory k = some q) : k.current ∈ k'.sched.queue (.wait q) := by
  cases h with
  | createAsleep hq' hs =>
    obtain rfl := Option.some.inj (hq'.symm.trans hq)
    exact mem_queue_of_threadWait hs
  | createFromJob hj => exact hj.mem_queue hq
  | wait hs =>
    obtain rfl := Option.some.inj hq
    exact mem_queue_of_threadWait hs
  | joinAsleep hth hparent hruns hs =>
    -- the child goes on, and the thread sleeps in its queue
    obtain rfl : WaitQueue.thread _ = q := by simpa [Act.sleepsOn, hth, hruns] using hq
    exact mem_queue_of_threadWait hs
  | createAlloc hq' => simp [Act.sleepsOn, hq'] at hq
  | threadJoin hth hparent hend | waitForChild hth hparent hend =>
    simp [Act.sleepsOn, hth, hend] at hq
  | _ => simp [Act.sleepsOn] at hq

theorem WorkStep.mem_queue {a : WorkAct} (h : WorkStep memory k a acts k')
    (hq : (Act.work a).sleepsOn memory k = some q) : k.current ∈ k'.sched.queue (.wait q) := by
  cases h with
  | scheduleAsleep hmemory hs =>
    obtain rfl : WaitQueue.heap = q := by simpa [Act.sleepsOn, hmemory] using hq
    exact mem_queue_of_threadWait hs
  | loopAsleep hempty hs =>
    obtain rfl : WaitQueue.work = q := by simpa [Act.sleepsOn, hempty] using hq
    exact mem_queue_of_threadWait hs
  | schedule hmemory => simp [Act.sleepsOn, hmemory] at hq
  | loop hitem => simp [Act.sleepsOn, hitem] at hq
  | _ => simp [Act.sleepsOn] at hq

theorem KeyboardStep.mem_queue {a : KeyboardAct} (h : KeyboardStep k a acts k')
    (hq : (Act.keyboard a).sleepsOn memory k = some q) : k.current ∈ k'.sched.queue (.wait q) := by
  cases h with
  | waitForKeyAsleep hempty hs =>
    obtain rfl : WaitQueue.work = q := by simpa [Act.sleepsOn, hempty] using hq
    exact mem_queue_of_threadWait hs
  | waitForKey hkey => simp [Act.sleepsOn, hkey] at hq
  | readKey => simp [Act.sleepsOn] at hq

theorem SynchStep.mem_queue {a : SynchAct} (h : SynchStep k a acts k')
    (hq : (Act.synch a).sleepsOn memory k = some q) : k.current ∈ k'.sched.queue (.wait q) := by
  cases h with
  | lockPark hs | condPark hs =>
    obtain rfl := Option.some.inj hq
    exact mem_queue_of_threadPark hs
  | _ => simp [Act.sleepsOn] at hq

theorem SimulationStep.mem_queue {a : SimulationAct} (h : SimulationStep memory k a acts k')
    (hq : (Act.simulation a).sleepsOn memory k = some q) :
    k.current ∈ k'.sched.queue (.wait q) := by
  cases h with
  | submit hj => exact hj.mem_queue hq
  | _ => simp [Act.sleepsOn] at hq

/-- An act that ends with a call of `thread_wait` leaves the thread in that queue. -/
theorem Act.mem_queue_of_sleepsOn {a : Act} (h : a.run memory k = .ok (acts, k'))
    (hq : a.sleepsOn memory k = some q) : k.current ∈ k'.sched.queue (.wait q) := by
  cases a with
  | thread a => exact (ThreadAct.run_step h).mem_queue hq
  | work a => exact (WorkAct.run_step h).mem_queue hq
  | keyboard a => exact (KeyboardAct.run_step h).mem_queue hq
  | synch a => exact (SynchAct.run_step h).mem_queue hq
  | simulation a => exact (SimulationAct.run_step h).mem_queue hq

end Sleep

namespace Machine

variable {m m' : Machine} {e : Event}

/-- A thread that goes to sleep by an event is in the queue then. -/
theorem mem_queue_of_sleeps {q : WaitQueue} (h : m.exec e = .ok m') (hq : m.sleeps e = some q) :
    m.current ∈ m'.kernel.sched.queue (.wait q) := by
  cases e with
  | resume memory =>
    cases hacts : m.acts m.current with
    | nil => simp [sleeps, hacts] at hq
    | cons a rest =>
      obtain ⟨acts, k', hk, rfl⟩ := (exec_resume hacts).mp h
      exact Act.mem_queue_of_sleepsOn hk (by simpa [sleeps, hacts] using hq)
  | call | timer | keyboard => simp [sleeps] at hq

/-- An event lets a thread go to sleep only if it is the current one that goes to sleep. -/
theorem sleeps_of_allows_block {t : ThreadId} {q : WaitQueue} (h : m.Allows e (.block t q)) :
    m.sleeps e = some q ∧ t = m.current := by
  cases e with
  | resume memory =>
    obtain ⟨a, rest, hacts, rfl, hq⟩ := h
    exact ⟨by simpa [sleeps, hacts] using hq, rfl⟩
  | call | timer | keyboard => simp [Allows] at h

end Machine

/-- No thread sleeps when the initialisation is over. -/
theorem boot_wait (q : WaitQueue) : boot.kernel.sched.queue (.wait q) = [] := rfl

/-- In a run of the kernel, the state fields agree with the five-state process model in every
state visited exactly if no step of the run executes `thread_wait`. -/
theorem fiveStates_iff_never_sleeps {tr : List (Machine × Event)} {m : Machine}
    (h : Run Machine.Step boot tr m) :
    (∀ n ∈ visited tr m, FiveStates n.kernel.sched) ↔ ∀ p ∈ tr, p.1.sleeps p.2 = none := by
  refine h.states_iff_steps (I := Reachable Machine.Step boot)
    (P := fun n => FiveStates n.kernel.sched) (C := fun n e => n.sleeps e = none)
    (.refl _) (fun _ _ _ hr hs => hr.tail hs) ?_ fun m e m' hr hfive hs => ?_
  · exact (fiveStates_iff (reachable_placed (.refl _)) (reachable_marked (.refl _))).mpr boot_wait
  · have hr' := hr.tail hs
    rw [fiveStates_iff (reachable_placed hr) (reachable_marked hr)] at hfive
    rw [fiveStates_iff (reachable_placed hr') (reachable_marked hr')]
    constructor
    · intro hempty
      by_contra hq
      obtain ⟨q, hq⟩ := Option.ne_none_iff_exists'.mp hq
      have hmem := Machine.mem_queue_of_sleeps hs.2 hq
      simp [hempty] at hmem
    · intro hnone q
      refine List.eq_nil_iff_forall_not_mem.mpr fun t ht => ?_
      rcases (Machine.exec_moves hs.2).mem_wait ht with ht | hblock
      · simp [hfive] at ht
      · simp [(Machine.sleeps_of_allows_block hblock).1] at hnone

/-- The thread of `geekos_main` yields to the idle thread, and that to the workqueue thread, which
finds no work and goes to sleep. -/
def firstSleep : List Event :=
  [.call (.thread .yield), .resume .available, .resume .available, .resume .available]

/-- The law above on the run in which the workqueue thread goes to sleep. -/
theorem fiveStates_iff_never_sleeps_firstSleep :
    ∃ tr m, Run Machine.Step boot tr m ∧ tr.length = 4 ∧
      ((∀ n ∈ visited tr m, FiveStates n.kernel.sched) ↔ ∀ p ∈ tr, p.1.sleeps p.2 = none) := by
  have hsome : ((boot.runs firstSleep).map fun r => r.1.length) = some 4 := by decide
  obtain ⟨⟨tr, m⟩, hr, hlen⟩ := Option.map_eq_some_iff.mp hsome
  exact ⟨tr, m, Machine.run_of_runs hr, hlen,
    fiveStates_iff_never_sleeps (Machine.run_of_runs hr)⟩

/-- A sleeping thread that still counts as running: the workqueue thread, behind `firstSleep`. -/
theorem not_fiveStates_firstSleep :
    Reachable Machine.Step boot (Machine.after firstSleep) ∧
      workqueueThread ∈ (Machine.after firstSleep).kernel.sched.queue (.wait .work) ∧
      ¬FiveStates (Machine.after firstSleep).kernel.sched := by
  have hr : Reachable Machine.Step boot (Machine.after firstSleep) :=
    Machine.reachable_after (by decide)
  have hmem : workqueueThread ∈ (Machine.after firstSleep).kernel.sched.queue (.wait .work) := by
    decide
  refine ⟨hr, hmem, fun hfive => ?_⟩
  rw [fiveStates_iff (reachable_placed hr) (reachable_marked hr)] at hfive
  simp [hfive] at hmem

end GeekOS
