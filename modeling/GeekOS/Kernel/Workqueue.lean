import GeekOS.Kernel.Control
import GeekOS.Kernel.OnePlace

/-!
# The work queue and the keyboard

`workqueue.c` defines `s_waitqueue` for the workqueue thread, and `keyboard.h` declares the same
queue for the threads that wait for a key. `workqueue_schedule_work` wakes one thread of it, which
need not be the workqueue thread.

* `WorkerRuns`: the workqueue thread never leaves its loop, and sleeps only in `s_waitqueue`;
* `workServed_iff_wakesWorker`: no item is left behind in a run exactly when every
  `workqueue_schedule_work` that finds the workqueue thread asleep finds it first in the queue;
* `not_workServed_keyWaiter`: an item that waits for a key press.
-/

namespace GeekOS

open Result TransitionSystem

/-- The acts of the workqueue thread. -/
def Act.isWorker : Act → Bool
  | .work (.loop _) | .work (.destroyProcess _) | .work (.destroyStack _)
  | .work (.destroyThread _) | .work (.ramdiskHandleRequest _) | .work .freeItem => true
  | _ => false

/-- The workqueue thread never leaves its loop, and sleeps only there. -/
structure WorkerRuns (m : Machine) : Prop where
  loops : ∃ slept, .work (.loop slept) ∈ m.acts workqueueThread
  acts : ∀ a ∈ m.acts workqueueThread, a.isWorker
  place : Runnable workqueueThread (some m.current, m.kernel.sched) ∨
    ∃ q, q = .work ∧ workqueueThread ∈ m.kernel.sched.queue (.wait q)

/-- The acts of the workqueue thread are followed by such acts, and the others by others. -/
theorem Act.LeadsTo.isWorker {k : Kernel} {a b : Act} (h : a.LeadsTo k b) :
    b.isWorker = a.isWorker := by
  cases h <;> rfl

/-- No thread calls them. -/
theorem Act.isWorker_of_isCall {a : Act} (h : a.isCall = true) : a.isWorker = false := by
  cases a with
  | work a => cases a <;> simp_all [isCall, isWorker]
  | _ => rfl

/-- The workqueue thread goes to sleep in `s_waitqueue`, and only when there is no work. -/
theorem Act.sleepsOn_worker {memory : Memory} {k : Kernel} {a : Act} {q : WaitQueue}
    (ha : a.isWorker = true) (h : a.sleepsOn memory k = some q) :
    q = .work ∧ k.workqueue = [] := by
  unfold Act.isWorker at ha
  split at ha
  next slept =>
    simp only [Act.sleepsOn] at h
    split at h
    next hempty => exact ⟨(Option.some.inj h).symm, hempty⟩
    next => simp at h
  next => simp [Act.sleepsOn] at h
  next => simp [Act.sleepsOn] at h
  next => simp [Act.sleepsOn] at h
  next => simp [Act.sleepsOn] at h
  next => simp [Act.sleepsOn] at h
  next => simp at ha

namespace WorkerRuns

variable {m m' : Machine} {e : Event}

/-- The workqueue thread goes to sleep in `s_waitqueue`, and only when there is no work. -/
theorem block (h : WorkerRuns m) {q : WaitQueue} (hq : m.Allows e (.block workqueueThread q)) :
    q = .work ∧ m.kernel.workqueue = [] := by
  obtain ⟨hsleeps, hcur⟩ := Machine.sleeps_of_allows_block hq
  cases e with
  | resume memory =>
    obtain ⟨a, rest, hacts, -, hsleep⟩ := hq
    have ha : a ∈ m.acts workqueueThread := by
      rw [hcur, hacts]
      exact List.mem_cons_self
    exact Act.sleepsOn_worker (h.acts a ha) hsleep
  | call | timer | keyboard => simp [Machine.sleeps] at hsleeps

/-- It does not exit. -/
theorem not_exit (h : WorkerRuns m) (code : ℤ) : ¬m.Allows e (.exit workqueueThread code) := by
  intro hexit
  cases e with
  | resume memory =>
    obtain ⟨a, rest, hacts, hcur, rfl⟩ := hexit
    have ha := h.acts (.thread (.exitFinish code)) (by
      rw [show workqueueThread = m.current from hcur, hacts]
      exact List.mem_cons_self)
    simp [Act.isWorker] at ha
  | call | timer | keyboard => simp [Machine.Allows] at hexit

/-- Every step keeps the workqueue thread in its loop. -/
theorem step (h : WorkerRuns m) (hs : m.Step e m') : WorkerRuns m' := by
  have hacts' : (∃ slept, .work (.loop slept) ∈ m'.acts workqueueThread) ∧
      ∀ a ∈ m'.acts workqueueThread, a.isWorker := by
    by_cases hcur : workqueueThread = m.current
    · have hloops := h.loops
      have hworker := h.acts
      rw [hcur] at hloops hworker ⊢
      rcases Machine.step_cases hs with ⟨-, hacts⟩ | ⟨a, rfl, hnil, -, rfl⟩ |
        ⟨memory, a, rest, acts, k', rfl, hacts, hk, rfl⟩
      · rw [hacts]
        exact ⟨hloops, hworker⟩
      · obtain ⟨slept, hin⟩ := hloops
        simp [hnil] at hin
      · have hfollows := Act.run_follows hk
        simp only [Function.update_self]
        constructor
        · obtain ⟨slept, hin⟩ := hloops
          rw [hacts] at hin
          rcases List.mem_cons.mp hin with rfl | hin
          · rcases hfollows with rfl | ⟨item, todo, -, rfl⟩
            · exact ⟨true, by simp⟩
            · exact ⟨false, by simp⟩
          · exact ⟨slept, List.mem_append_right _ hin⟩
        · intro b hb
          rcases List.mem_append.mp hb with hb | hb
          · exact (hfollows.leadsTo hb).isWorker.trans (hworker a (hacts ▸ List.mem_cons_self))
          · exact hworker b (hacts ▸ List.mem_cons_of_mem _ hb)
    · rw [Machine.exec_acts_of_ne hs.2 hcur]
      exact ⟨h.loops, h.acts⟩
  exact ⟨hacts'.1, hacts'.2,
    (Machine.exec_moves hs.2).stays_among (fun q hq => (h.block hq).1) h.not_exit h.place⟩

end WorkerRuns

theorem workerRuns_boot : WorkerRuns boot where
  loops := ⟨false, by simp [boot, workqueueThread, idleThread]⟩
  acts a ha := by
    obtain rfl : a = .work (.loop false) := by simpa [boot, workqueueThread, idleThread] using ha
    rfl
  place := .inl (.inr (by decide))

/-! ## The items -/

namespace Machine

variable (m : Machine)

/-- While items are scheduled, the workqueue thread is not asleep. -/
def WorkServed : Prop :=
  m.kernel.workqueue ≠ [] →
    m.current = workqueueThread ∨ workqueueThread ∈ m.kernel.sched.queue .runqueue

/-- If the event is the atomic section of `workqueue_schedule_work` and the workqueue thread
sleeps, then it is the first in `s_waitqueue`. -/
def WakesWorker (e : Event) : Prop :=
  ∀ memory item iflag rest, e = .resume memory →
    m.acts m.current = .work (.link item iflag) :: rest →
    workqueueThread ∈ m.kernel.sched.queue (.wait .work) →
    (m.kernel.sched.queue (.wait .work)).head? = some workqueueThread

variable {m} {m' : Machine} {e : Event}

theorem workServed_iff : m.WorkServed ↔ (m.kernel.workqueue ≠ [] →
    Runnable workqueueThread (some m.current, m.kernel.sched)) := by
  simp [WorkServed, Runnable]

/-- Items are added by `workqueue_schedule_work` only. -/
theorem workqueue_ne_nil (hs : m.Step e m')
    (hlink : ∀ memory item iflag rest, e = .resume memory →
      m.acts m.current ≠ .work (.link item iflag) :: rest)
    (h : m'.kernel.workqueue ≠ []) : m.kernel.workqueue ≠ [] := by
  rcases step_cases hs with ⟨he, -⟩ | ⟨a, rfl, -, -, rfl⟩ |
    ⟨memory, a, rest, acts, k', rfl, hacts, hk, rfl⟩
  · rwa [(exec_interrupt hs.2 he).2.2.1] at h
  · exact h
  · by_cases hchange : a.changesWorkqueue = true
    · unfold Act.changesWorkqueue at hchange
      split at hchange
      next item iflag => exact absurd hacts (hlink memory item iflag rest rfl)
      next slept =>
        cases WorkAct.run_step hk with
        | loopAsleep hempty => exact absurd hempty h
        | loop hitem => simp [hitem]
      next => simp at hchange
    · rwa [(Act.run_frame hk).workqueue (by simpa using hchange)] at h

/-- Behind a `workqueue_schedule_work`, the workqueue thread is awake exactly when it was so
before, or was the first in the queue. -/
theorem workServed_link {memory : Memory} {item : WorkItem} {iflag : Bool} {rest : List Act}
    (h : WorkerRuns m) (hp : Placed [m.current] m.kernel.sched) (hs : m.Step (.resume memory) m')
    (hacts : m.acts m.current = .work (.link item iflag) :: rest) :
    m'.WorkServed ↔ (workqueueThread ∈ m.kernel.sched.queue (.wait .work) →
      (m.kernel.sched.queue (.wait .work)).head? = some workqueueThread) := by
  obtain ⟨acts, k', hk, rfl⟩ := (exec_resume hacts).mp hs.2
  cases WorkAct.run_step hk with
  | @link _ _ s hwake =>
  obtain ⟨t, sleepers, th, hq, -, -, -, hs'⟩ := threadWakeupOne_eq_ok.mp hwake
  change m.kernel.sched.queue (.wait .work) = t :: sleepers at hq
  have hcur : s.gCurrent = m.current := by rw [hs']; rfl
  have hrun : ∀ u, u ∈ s.queue .runqueue ↔ u ∈ m.kernel.sched.queue .runqueue ∨ u = t := by
    intro u
    rw [hs', mem_scheduleInto]
    simp
  -- the item is there, and the first sleeper has become runnable
  have hserved : ∀ {k : Kernel} {acts' : ThreadId → List Act}, k.sched = s → k.workqueue ≠ [] →
      (Machine.WorkServed ⟨k, acts'⟩ ↔
        Runnable workqueueThread (some m.current, m.kernel.sched) ∨ workqueueThread = t) := by
    rintro k acts' rfl hne
    constructor
    · intro hserved
      rcases hserved hne with hc | hin
      · exact .inl (.inl (congrArg some (hcur.symm.trans hc)))
      · exact ((hrun _).mp hin).imp_left .inr
    · rintro ((hc | hin) | ht) -
      · exact .inl (hcur.trans (Option.some.inj hc))
      · exact .inr ((hrun _).mpr (.inl hin))
      · exact .inr ((hrun _).mpr (.inr ht))
  rw [hserved rfl (by simp), hq, List.head?_cons, Option.some.injEq]
  constructor
  · rintro (hawake | rfl) hin
    · rcases hawake with hc | hin'
      · exact absurd (hq ▸ hin)
          (hp.outside _ (List.mem_singleton.mpr (Option.some.inj hc).symm) (.wait .work))
      · have hsame := hp.unique workqueueThread .runqueue (.wait .work) hin' (hq ▸ hin)
        simp at hsame
    · rfl
  · intro hfirst
    rcases h.place with hawake | ⟨q, rfl, hin⟩
    · exact .inl hawake
    · exact .inr (hfirst (hq ▸ hin)).symm

/-- A step leaves no item behind exactly when it wakes the workqueue thread. -/
theorem workServed_step (h : WorkerRuns m) (hp : Placed [m.current] m.kernel.sched)
    (hserved : m.WorkServed) (hs : m.Step e m') : m'.WorkServed ↔ m.WakesWorker e := by
  by_cases hlink : ∃ memory item iflag rest, e = .resume memory ∧
      m.acts m.current = .work (.link item iflag) :: rest
  · obtain ⟨memory, item, iflag, rest, rfl, hacts⟩ := hlink
    rw [workServed_link h hp hs hacts]
    refine ⟨fun hfirst _ _ _ _ _ _ => hfirst, fun hwake => ?_⟩
    exact hwake memory item iflag rest rfl hacts
  · have hno : ∀ memory item iflag rest, e = .resume memory →
        m.acts m.current ≠ .work (.link item iflag) :: rest :=
      fun memory item iflag rest he hacts => hlink ⟨memory, item, iflag, rest, he, hacts⟩
    refine iff_of_true (workServed_iff.mpr fun hne => ?_) fun memory item iflag rest he hacts =>
      absurd hacts (hno memory item iflag rest he)
    -- the workqueue thread was awake, and goes to sleep only when there is no work
    have hne' := workqueue_ne_nil hs hno hne
    exact (exec_moves hs.2).stays_runnable (fun q hq => hne' (h.block hq).2) h.not_exit
      (workServed_iff.mp hserved hne')

end Machine

/-- In a run from the start, the workqueue thread is awake in every state with a scheduled item
exactly when every `workqueue_schedule_work` that finds it asleep finds it first in
`s_waitqueue`. -/
theorem workServed_iff_wakesWorker {tr : List (Machine × Event)} {m : Machine}
    (h : Run Machine.Step boot tr m) :
    (∀ n ∈ visited tr m, n.WorkServed) ↔ ∀ p ∈ tr, p.1.WakesWorker p.2 := by
  refine h.states_iff_steps (I := fun n => Reachable Machine.Step boot n ∧ WorkerRuns n)
    ⟨.refl _, workerRuns_boot⟩ (fun _ _ _ hI hs => ⟨hI.1.tail hs, hI.2.step hs⟩) ?_ ?_
  · exact fun hne => absurd rfl hne
  · exact fun _ _ _ hI hP hs => Machine.workServed_step hI.2 (reachable_placed hI.1) hP hs

/-- `geekos_main` makes a thread and waits for a key. Behind it in the queue, the workqueue thread
goes to sleep; then the new thread exits and schedules its destruction. -/
def keyWaiter : List Event :=
  Machine.call (.thread (.create .detached (.thread false))) 8 ++
    Machine.call (.keyboard (.waitForKey false)) 3 ++ Machine.call (.thread (.exit 0)) 3

/-- The law above on this run. -/
theorem workServed_iff_wakesWorker_keyWaiter :
    ∃ tr m, Run Machine.Step boot tr m ∧ tr.map Prod.snd = keyWaiter ∧
      ((∀ n ∈ visited tr m, n.WorkServed) ↔ ∀ p ∈ tr, p.1.WakesWorker p.2) := by
  obtain ⟨tr, hr, htr⟩ := Machine.run_after keyWaiter (by decide)
  exact ⟨tr, _, hr, htr, workServed_iff_wakesWorker hr⟩

/-- The item is scheduled, the thread that waits for a key has been woken, and the workqueue
thread sleeps on. -/
theorem not_workServed_keyWaiter :
    Reachable Machine.Step boot (Machine.after keyWaiter) ∧
      (Machine.after keyWaiter).kernel.workqueue = [.threadDestroy 3] ∧
      workqueueThread ∈ (Machine.after keyWaiter).kernel.sched.queue (.wait .work) ∧
      ¬(Machine.after keyWaiter).WorkServed := by
  have hwork : (Machine.after keyWaiter).kernel.workqueue = [.threadDestroy 3] := by decide
  have hcur : (Machine.after keyWaiter).current ≠ workqueueThread := by decide
  have hrun : workqueueThread ∉ (Machine.after keyWaiter).kernel.sched.queue .runqueue := by decide
  refine ⟨Machine.reachable_after (by decide), hwork, by decide, fun h => ?_⟩
  rcases h (by simp [hwork]) with hc | hin
  · exact hcur hc
  · exact hrun hin

end GeekOS
