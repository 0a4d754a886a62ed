import GeekOS.Thread.Accounts
import GeekOS.Kernel.Reachable

/-!
# The ticks and the times in a run

Every act is a booking, and so is a keyboard interrupt. A timer interrupt charges one tick to the
current thread, and its return is a booking.

* `Machine.exec_booking`, `Machine.exec_timer`: what a step does to the accounts;
* `reachable_rested`: a thread in a queue has no ticks on its counter.
-/

namespace GeekOS

open Result TransitionSystem

section Run

variable {memory : Memory} {k k' : Kernel} {acts acts' : List Act}

theorem Sched.Booking.refl (s : Sched) : s.Booking s := .quiet (.refl s) (.refl s)

theorem detach_booking {t : ThreadId} (h : k.detach t = .ok (acts, k')) :
    k.sched.Booking k'.sched := by
  obtain ⟨th, hth, -, -, -, rfl⟩ := detach_eq_ok h
  exact .setThread hth rfl rfl

/-- `g_preemption` is stored. -/
theorem setPreemption_booking {b : Bool} : k.sched.Booking (k.setPreemption b).sched := by
  exact .quiet ((Sched.Effect.refl k.sched).congr rfl rfl rfl) ⟨rfl, rfl⟩

theorem threadPark_booking {s s' : Sched} {q : WaitQueue} (h : threadPark q s = .ok s') :
    s.Booking s' := by
  simp only [threadPark, bind_eq_ok] at h
  obtain ⟨-, -, h⟩ := h
  -- preemption is allowed again before the thread waits
  have hpre : s.Effect { s with gPreemption := true } s.account [] [] :=
    (Sched.Effect.refl s).congr rfl rfl rfl
  exact .after_quiet hpre ⟨rfl, rfl⟩ (threadWait_booking h) rfl

theorem JobStep.booking {job : Job} {mode : ThreadMode} {s s' : Sched} {c : JobCreation}
    {r : JobCreation ⊕ ThreadId} (h : JobStep memory job mode s c r s') : s.Booking s' := by
  cases h with
  | asleep hq hs => exact threadWait_booking hs
  | pid => exact genPid_booking
  | made hs => exact threadCreateFromJob_booking hs
  | alloc | priority => exact .refl _

theorem ThreadStep.booking {a : ThreadAct} (h : ThreadStep memory k a acts k') :
    k.sched.Booking k'.sched := by
  cases h with
  | idle hs | yield hs | waitForChildren hs => exact threadYield_booking hs
  | createAsleep hq hs => exact threadWait_booking hs
  | wait hs | joinAsleep hth hparent hruns hs => exact threadWait_booking hs
  | create hs => exact threadCreate_booking hs
  | createGenPid => exact genPid_booking
  | createPid hs => exact threadCreatePid_booking hs
  | createPriority hs => exact threadCreatePriority_booking hs
  | createFromJob hj => exact hj.booking
  | merge hs => exact mergeNewWithRunnable_booking hs
  | wakeup hs => exact threadWakeup_booking hs
  | wakeupOne hs => exact threadWakeupOne_booking hs
  | exit hd =>
    have hbooking := detach_booking hd
    exact hbooking
  | exitFinish hs => exact threadExitFinish_booking hs
  | threadJoin hth hparent hend hd | waitForChild hth hparent hend hd =>
    have hbooking := detach_booking hd
    exact hbooking
  | createAlloc | createArrival | join | joinReturn | waitForNone => exact .refl _

theorem WorkStep.booking {a : WorkAct} (h : WorkStep memory k a acts k') :
    k.sched.Booking k'.sched := by
  cases h with
  | scheduleAsleep hmemory hs | loopAsleep hempty hs => exact threadWait_booking hs
  | link hs => exact threadWakeupOne_booking hs
  | destroyProcess hs =>
    obtain ⟨_, -, hs⟩ := bind_eq_ok.mp hs
    obtain ⟨-, -, hs⟩ := bind_eq_ok.mp hs
    exact memFree_booking hs
  | destroyStack hs =>
    obtain ⟨_, -, hs⟩ := bind_eq_ok.mp hs
    exact memFreeFrame_booking hs
  | destroyThread hs => exact memFree_booking hs
  | ramdiskHandleRequest hs | freeItem hs => exact threadWakeup_booking hs
  | schedule | loop => exact .refl _

theorem KeyboardStep.booking {a : KeyboardAct} (h : KeyboardStep k a acts k') :
    k.sched.Booking k'.sched := by
  cases h with
  | waitForKeyAsleep hempty hs => exact threadWait_booking hs
  | readKey | waitForKey => exact .refl _

theorem SynchStep.booking {a : SynchAct} (h : SynchStep k a acts k') :
    k.sched.Booking k'.sched := by
  cases h with
  | mutexLock | lockParked | lockReturn | mutexUnlock | unlockReturn | condWait | condParked =>
    exact setPreemption_booking
  | lockPark hs | condPark hs => exact threadPark_booking hs
  | unlockWake hs | condSignal hs => exact threadWakeupOne_booking hs
  | condBroadcast hs => exact threadWakeup_booking hs
  | lockImp | lockBusy | lockFree | lockState | lockOwner | unlockImp | unlockState | unlockOwner
  | unlockAlone | unlockWaited =>
    exact .refl _

theorem SimulationStep.booking {a : SimulationAct} (h : SimulationStep memory k a acts k') :
    k.sched.Booking k'.sched := by
  cases h with
  | setScheduler => exact .quiet ((Sched.Effect.refl k.sched).congr rfl rfl rfl) ⟨rfl, rfl⟩
  | submit hj => exact hj.booking
  | firstResponse hs => exact firstResponse_booking hs
  | runSimulation | submitted | simulationEnd | busyWait | busyWaiting | busyWaited =>
    exact .refl _

/-- Every act is a booking. -/
theorem Act.run_booking {a : Act} (h : a.run memory k = .ok (acts, k')) :
    k.sched.Booking k'.sched := by
  cases a with
  | thread a => exact (ThreadAct.run_step h).booking
  | work a => exact (WorkAct.run_step h).booking
  | keyboard a => exact (KeyboardAct.run_step h).booking
  | synch a => exact (SynchAct.run_step h).booking
  | simulation a => exact (SimulationAct.run_step h).booking

end Run

namespace Machine

variable {m m' : Machine} {e : Event}

/-- Every event but a timer interrupt is a booking. -/
theorem exec_booking (h : m.exec e = .ok m') (he : e ≠ .timer) :
    m.kernel.sched.Booking m'.kernel.sched := by
  cases e with
  | call a =>
    obtain rfl := pure_eq_ok.mp h
    exact .refl _
  | resume memory =>
    cases hacts : m.acts m.current with
    | nil =>
      obtain rfl := by simpa [exec, hacts] using h
      exact .refl _
    | cons a rest =>
      obtain ⟨acts, k', hk, rfl⟩ := (exec_resume hacts).mp h
      exact Act.run_booking hk
  | timer => exact absurd rfl he
  | keyboard keycode =>
    simp only [exec, bind_eq_ok, pure_eq_ok, keyboardIntHandler_eq_ok] at h
    obtain ⟨_, ⟨-, rfl⟩ | ⟨code, s₁, -, h₁, rfl⟩, s₂, h₂, rfl⟩ := h
    · exact (intHandleReturn_booking h₂).1
    · obtain ⟨heff, hkept⟩ := threadWakeup_effect h₁
      have hnext : s₁.nextThread = m.kernel.sched.nextThread :=
        (threadWakeup_rule (I := fun s => s.nextThread = m.kernel.sched.nextThread)
          (fun _ _ hI hb => by
            obtain ⟨_, _, _, -, -, -, -, rfl⟩ := threadWakeupOne_eq_ok.mp hb
            exact hI) rfl h₁).1
      have hwake : m.kernel.sched.Effect { s₁ with gNeedReschedule := true }
          m.kernel.sched.account [] [] := heff.congr rfl rfl rfl
      exact .after_quiet hwake ⟨hkept.gCurrent, hkept.dispatched⟩ (intHandleReturn_booking h₂).1
        hnext

/-- A timer interrupt charges a tick and returns. If preemption is on and a reschedule is asked for
behind the tick, it dispatches a thread. -/
theorem exec_timer (h : m.exec .timer = .ok m') :
    ∃ s a, m.kernel.sched.Ticked s a ∧ s.Booking m'.kernel.sched ∧
      (s.gPreemption = true → s.gNeedReschedule = true →
        m'.kernel.sched.dispatched = s.dispatched ++ [m'.current]) ∧ m'.acts = m.acts := by
  simp only [exec, bind_eq_ok, pure_eq_ok] at h
  obtain ⟨s₁, h₁, s₂, h₂, rfl⟩ := h
  obtain ⟨a, ha⟩ := timerProcessTick_ticked h₁
  exact ⟨s₁, a, ha, (intHandleReturn_booking h₂).1, (intHandleReturn_booking h₂).2, rfl⟩

end Machine

/-! ## Reachable states -/

section Reachable

variable {m m' : Machine} {e : Event}

theorem current_ne_nextThread (hr : Reachable Machine.Step boot m) :
    m.current ≠ m.kernel.sched.nextThread := by
  obtain ⟨th, hth, -⟩ := (reachable_placed hr).live m.current (.inl List.mem_cons_self)
  exact ((reachable_placed hr).lt_nextThread hth).ne

theorem current_not_queued (hr : Reachable Machine.Step boot m) :
    ¬m.kernel.sched.Queued m.current :=
  fun ⟨q, hq⟩ => (reachable_placed hr).outside _ List.mem_cons_self q hq

/-- The thread on the CPU has not ended. -/
theorem current_not_ended (hr : Reachable Machine.Step boot m) :
    ¬m.kernel.sched.Ended m.current := by
  rintro ⟨th, hth, hend⟩
  have hrun := (reachable_marked hr).cpu _ th rfl hth
  simp [ThreadState.Ended, hrun] at hend

/-- The clock counts the timer interrupts. -/
theorem Machine.Step.numticks (hs : m.Step e m') : m'.kernel.sched.gNumticks =
    if e = .timer then u32Succ m.kernel.sched.gNumticks else m.kernel.sched.gNumticks := by
  by_cases he : e = .timer
  · subst he
    obtain ⟨s, a, htick, hbooking, -⟩ := Machine.exec_timer hs.2
    rw [if_pos rfl, hbooking.numticks, htick.numticks]
  · rw [if_neg he, (Machine.exec_booking hs.2 he).numticks]

/-- The clock is a `u32_t`. -/
theorem numticks_lt (hr : Reachable Machine.Step boot m) :
    m.kernel.sched.gNumticks < 2 ^ 32 := by
  refine hr.invariant (I := fun m => m.kernel.sched.gNumticks < 2 ^ 32) (by decide)
    fun m e m' hlt hs => ?_
  rw [hs.numticks]
  split
  · exact Nat.mod_lt _ (by decide)
  · exact hlt

/-- A thread keeps the arrival time with which it was made. -/
theorem Machine.Step.arrival (hs : m.Step e m') (hr : Reachable Machine.Step boot m) {t : ThreadId}
    (ht : ∃ th, m.kernel.sched.threads t = some th) :
    m'.kernel.sched.arrival t = m.kernel.sched.arrival t := by
  obtain ⟨th, hth⟩ := ht
  have hne : t ≠ m.kernel.sched.nextThread := ((reachable_placed hr).lt_nextThread hth).ne
  by_cases he : e = .timer
  · subst he
    obtain ⟨s, a, htick, hbooking, -⟩ := Machine.exec_timer hs.2
    exact (hbooking.arrival (htick.nextThread ▸ hne)).trans htick.arrival
  · exact (Machine.exec_booking hs.2 he).arrival hne

theorem threadCreateAtomic_rested {mode : ThreadMode} {s s' : Sched} (hs : s.Rested)
    (h : threadCreateAtomic mode s = .ok s') : s'.Rested := by
  simp only [threadCreateAtomic, bind_eq_ok, Prod.exists] at h
  obtain ⟨t, s₁, h₁, s₂, h₂, h₃⟩ := h
  have hrun := genPid_booking.rested ((threadCreate_booking h₁).rested hs)
  exact (threadCreatePriority_booking h₃).rested ((threadCreatePid_booking h₂).rested hrun)

theorem bootSched_rested : bootSched.Rested := by
  have h := initSched_eq
  simp only [initSched, bind_eq_ok, pure_eq_ok] at h
  obtain ⟨s₁, h₁, s₂, h₂, h₃⟩ := h
  have hmain : mainSched.Rested := by
    rintro t a ⟨q, hq⟩
    exact absurd hq List.not_mem_nil
  have hrest := threadCreateAtomic_rested (threadCreateAtomic_rested hmain h₁) h₂
  rw [← h₃]
  exact hrest

theorem Machine.Step.rested (hs : m.Step e m') (hr : Reachable Machine.Step boot m)
    (h : m.kernel.sched.Rested) : m'.kernel.sched.Rested := by
  by_cases he : e = .timer
  · subst he
    obtain ⟨s, a, htick, hbooking, -⟩ := Machine.exec_timer hs.2
    exact hbooking.rested (htick.rested h (current_not_queued hr))
  · exact (Machine.exec_booking hs.2 he).rested h

/-- The counters of the threads in queues are zero. -/
theorem reachable_rested (hr : Reachable Machine.Step boot m) : m.kernel.sched.Rested := by
  have hI := hr.invariant (I := fun m => Reachable Machine.Step boot m ∧ m.kernel.sched.Rested)
    ⟨.refl _, bootSched_rested⟩ fun m e m' hI hs => ⟨hI.1.tail hs, hs.rested hI.1 hI.2⟩
  exact hI.2

end Reachable

end GeekOS
