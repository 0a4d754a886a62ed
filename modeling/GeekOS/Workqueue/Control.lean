import GeekOS.Kernel.Condition
import GeekOS.Kernel.Wakeups
import GeekOS.Kernel.Workqueue

/-!
# The threads in `workqueue.c`

Which acts of the kernel use `s_waitqueue` and the queue of `mem_alloc`, and where in `workqueue.c`
the threads are that go through them.

* `Act.queue_work_eq`, `Act.mem_heap_iff`: the other acts leave the sleepers there alone;
* `WorkControl`: only the workqueue thread is in its loop, and a thread is in
  `workqueue_schedule_work` only with its next act.
-/

namespace GeekOS

open Result TransitionSystem

/-- The act belongs to `workqueue_schedule_work`. -/
def Act.isScheduling : Act → Bool
  | .work (.schedule _ _ _) | .work (.link _ _) => true
  | _ => false

/-- The act belongs to the callback of the item. -/
def Act.callbackOf : Act → Option WorkItem
  | .work (.destroyProcess t) | .work (.destroyStack t) | .work (.destroyThread t) =>
      some (.threadDestroy t)
  | .work (.ramdiskHandleRequest r) => some (.ramdiskHandleRequest r)
  | _ => none

/-- The thread waits in the queue of `workqueue.c` or `mem.c`, or wakes its sleepers, without the
functions of these modules. -/
def Event.usesWorkQueues : Event → Bool
  | .call a =>
      match a.ownQueue with
      | some .work | some .heap => true
      | _ => false
  | _ => false

/-! ## Which acts use the two queues -/

section Acts

variable {memory : Memory} {k k' : Kernel} {a b : Act} {acts : List Act}

/-- Only `workqueue_schedule_work` wakes the sleepers of `s_waitqueue`. -/
theorem Act.wakes_work (h : a.wakes k = some .work) :
    (∃ item iflag, a = .work (.link item iflag)) ∨ a.ownQueue = some .work := by
  cases a with
  | thread a => cases a <;> simp_all [wakes, ownQueue]
  | work a => cases a <;> simp_all [wakes]
  | synch a => cases a <;> simp_all [wakes]
  | keyboard a | simulation a => simp [wakes] at h

/-- Only the workqueue thread calls `mem_free`. -/
theorem Act.wakes_heap (h : a.wakes k = some .heap) :
    a.isWorker = true ∨ a.ownQueue = some .heap := by
  cases a with
  | thread a => cases a <;> simp_all [wakes, ownQueue]
  | work a => cases a <;> simp_all [wakes, isWorker]
  | synch a => cases a <;> simp_all [wakes]
  | keyboard a | simulation a => simp [wakes] at h

theorem Allocation.sleepsOn_ne_work (a : Allocation) : a.sleepsOn memory ≠ some .work := by
  cases a <;> cases memory <;> simp [Allocation.sleepsOn]

theorem JobCreation.sleepsOn_ne_work (c : JobCreation) : c.sleepsOn memory ≠ some .work := by
  cases c with
  | alloc a => exact a.sleepsOn_ne_work
  | _ => simp [JobCreation.sleepsOn]

/-- The workqueue thread and the threads that wait for a key sleep in `s_waitqueue`. -/
theorem Act.sleepsOn_work (h : a.sleepsOn memory k = some .work) :
    a.isWorker = true ∨ (∃ slept, a = .keyboard (.waitForKey slept)) ∨
      a.ownQueue = some .work := by
  cases a with
  | thread a =>
    cases a with
    | create mode a => exact absurd h a.sleepsOn_ne_work
    | createFromJob job mode c => exact absurd h c.sleepsOn_ne_work
    | joinTest child caller =>
      simp only [sleepsOn] at h
      split at h
      · split at h <;> simp at h
      · simp at h
    | wait q => exact .inr (.inr h)
    | _ => simp [sleepsOn] at h
  | work a =>
    cases a with
    | schedule item iflag slept =>
      simp only [sleepsOn] at h
      split at h <;> simp at h
    | loop slept => exact .inl rfl
    | _ => simp [sleepsOn] at h
  | keyboard a =>
    cases a with
    | waitForKey slept => exact .inr (.inl ⟨slept, rfl⟩)
    | readKey => simp [sleepsOn] at h
  | synch a => cases a <;> simp [sleepsOn] at h
  | simulation a =>
    cases a with
    | longTermScheduler joblist threads c =>
      cases joblist with
      | nil => simp [sleepsOn] at h
      | cons job rest => exact absurd h c.sleepsOn_ne_work
    | _ => simp [sleepsOn] at h

/-- The acts of other modules leave the work queue alone. -/
theorem Act.workqueue_eq (hk : a.run memory k = .ok (acts, k'))
    (hscheduling : a.isScheduling = false) (hworker : a.isWorker = false) :
    k'.workqueue = k.workqueue := by
  refine (Act.run_frame hk).workqueue ?_
  unfold Act.changesWorkqueue
  split
  next => cases hscheduling
  next => cases hworker
  next => rfl

/-- They leave the sleepers of `s_waitqueue` alone, a thread apart that waits for a key. -/
theorem Act.queue_work_eq (hk : a.run memory k = .ok (acts, k'))
    (hscheduling : a.isScheduling = false) (hworker : a.isWorker = false)
    (hown : a.ownQueue ≠ some .work)
    (hwait : ∀ slept, a = .keyboard (.waitForKey slept) → k.keyQueue ≠ []) :
    k'.sched.queue (.wait .work) = k.sched.queue (.wait .work) := by
  -- a queue changes only when the act wakes somebody there or sleeps there itself
  refine (Act.run_moves hk).queue_wait_eq (fun hwake => ?_) fun u hblock => ?_
  · rcases Act.wakes_work hwake with ⟨item, iflag, rfl⟩ | hq
    · cases hscheduling
    · exact hown hq
  · have hsleep := hblock.2
    rcases Act.sleepsOn_work hsleep with hw | ⟨slept, rfl⟩ | hq
    · rw [hw] at hworker
      cases hworker
    · simp [sleepsOn, hwait slept rfl] at hsleep
    · exact hown hq

/-- A thread that does not go to sleep in `mem_alloc` by them sleeps there as before. -/
theorem Act.mem_heap_iff (hk : a.run memory k = .ok (acts, k')) (hworker : a.isWorker = false)
    (hown : a.ownQueue ≠ some .heap) {t : ThreadId}
    (hsleep : t = k.current → a.sleepsOn memory k ≠ some .heap) :
    t ∈ k'.sched.queue (.wait .heap) ↔ t ∈ k.sched.queue (.wait .heap) := by
  refine (Act.run_moves hk).mem_wait_iff (fun hwake => ?_) fun hblock => hsleep hblock.1 hblock.2
  rcases Act.wakes_heap hwake with hw | hq
  · rw [hw] at hworker
    cases hworker
  · exact hown hq

/-- Who calls `workqueue_schedule_work` in an act does not sleep in it. -/
theorem Act.sleepsOn_heap_of_leadsTo {item : WorkItem} {iflag slept : Bool}
    (h : a.LeadsTo k (.work (.schedule item iflag slept))) (ha : a.isScheduling = false) :
    a.sleepsOn memory k ≠ some .heap := by
  cases h with
  | exitSchedule => simp [sleepsOn]
  | joinSchedule =>
    simp only [sleepsOn]
    split
    · split <;> simp
    · simp
  | scheduleAgain => simp [isScheduling] at ha

/-- No act leads into the atomic section of `workqueue_schedule_work` but the one in front of it. -/
theorem Act.isScheduling_of_leadsTo_link {item : WorkItem} {iflag : Bool}
    (h : a.LeadsTo k (.work (.link item iflag))) : a.isScheduling = true := by
  cases h
  rfl

/-- Behind the first one, the acts that follow an act are not in `workqueue_schedule_work`. -/
theorem Act.Follows.tail (h : a.Follows k acts) (hb : b ∈ acts.tail) : b.isScheduling = false := by
  have hleads := h.leadsTo (List.mem_of_mem_tail hb)
  cases hleads with
  | exitSchedule =>
    -- `thread_exit` ends behind it
    rcases h with rfl | rfl
    · simp at hb
    · simp at hb
  | @joinSchedule child caller =>
    cases caller with
    | threadJoin =>
      rcases h with rfl | ⟨code, rfl | rfl⟩
      · simp at hb
      · simp at hb
      · simp at hb
    | waitForChildren =>
      rcases h with rfl | rfl | rfl
      · simp at hb
      · simp at hb
      · simp at hb
  | scheduleAgain | link =>
    rcases h with rfl | rfl
    · simp at hb
    · simp at hb
  | _ => rfl

theorem Act.isWorker_of_callbackOf {a : Act} {item : WorkItem} (h : a.callbackOf = some item) :
    a.isWorker = true := by
  cases a with
  | work a => cases a <;> simp_all [callbackOf, isWorker]
  | thread | keyboard | synch | simulation => simp [callbackOf] at h

/-- Whom the acts of the workqueue thread wake that free memory or complete a request. -/
theorem WorkStep.wakesAll {a : WorkAct} {q : WaitQueue} (h : WorkStep memory k a acts k')
    (ha : (Act.work a).wakes k = some q) (hq : q ≠ .work) :
    ∃ sched, k' = { k with sched } ∧ k.sched.WakesAll q sched := by
  cases h with
  | destroyProcess hs =>
    -- the `mem_free` comes behind the access to the record and the assertion
    obtain ⟨_, -, hs⟩ := bind_eq_ok.mp hs
    obtain ⟨-, -, hs⟩ := bind_eq_ok.mp hs
    obtain rfl := by simpa [Act.wakes] using ha
    exact ⟨_, rfl, memFree_wakesAll hs⟩
  | destroyStack hs =>
    obtain ⟨_, -, hs⟩ := bind_eq_ok.mp hs
    obtain rfl := by simpa [Act.wakes] using ha
    exact ⟨_, rfl, memFreeFrame_wakesAll hs⟩
  | destroyThread hs =>
    obtain rfl := by simpa [Act.wakes] using ha
    exact ⟨_, rfl, memFree_wakesAll hs⟩
  | ramdiskHandleRequest hs | freeItem hs =>
    obtain rfl := by simpa [Act.wakes] using ha
    exact ⟨_, rfl, threadWakeup_wakesAll hs⟩
  | link =>
    -- this one wakes a single sleeper
    obtain rfl := by simpa [Act.wakes] using ha
    exact absurd rfl hq
  | scheduleAsleep | schedule | loopAsleep | loop => simp [Act.wakes] at ha

/-- An act of a callback wakes the sleepers of another queue than `s_waitqueue`, and it is followed
by another act of the callback or by none. -/
theorem Act.callback_step {item : WorkItem} (ha : a.callbackOf = some item)
    (hk : a.run memory k = .ok (acts, k')) :
    (∃ q sched, q ≠ .work ∧ k' = { k with sched } ∧ k.sched.WakesAll q sched) ∧
      (acts = [] ∨ ∃ b, acts = [b] ∧ b.callbackOf = some item) := by
  unfold Act.callbackOf at ha
  split at ha
  next t =>
    obtain ⟨sched, hk', hall⟩ := (WorkAct.run_step hk).wakesAll rfl (by simp)
    exact ⟨⟨.heap, sched, by simp, hk', hall⟩, .inr ⟨_, Act.run_follows hk, ha⟩⟩
  next t =>
    obtain ⟨sched, hk', hall⟩ := (WorkAct.run_step hk).wakesAll rfl (by simp)
    exact ⟨⟨.frame, sched, by simp, hk', hall⟩, .inr ⟨_, Act.run_follows hk, ha⟩⟩
  next t =>
    obtain ⟨sched, hk', hall⟩ := (WorkAct.run_step hk).wakesAll rfl (by simp)
    exact ⟨⟨.heap, sched, by simp, hk', hall⟩, .inl (Act.run_follows hk)⟩
  next r =>
    obtain ⟨sched, hk', hall⟩ := (WorkAct.run_step hk).wakesAll rfl (by simp)
    exact ⟨⟨.request r, sched, by simp, hk', hall⟩, .inl (Act.run_follows hk)⟩
  next => cases ha

end Acts

/-! ## The threads in `workqueue.c` -/

/-- Where the threads are in `workqueue.c`. -/
structure WorkControl (m : Machine) : Prop where
  /-- Only the workqueue thread goes through its loop. -/
  worker : ∀ t, ∀ a ∈ m.acts t, a.isWorker = true → t = workqueueThread
  /-- A thread is in `workqueue_schedule_work` only with the next act. -/
  behind : ∀ t, ∀ a ∈ (m.acts t).tail, a.isScheduling = false
  /-- No thread uses the two queues without the functions of their modules. -/
  own : ∀ t, ∀ a ∈ m.acts t, a.ownQueue ≠ some .work ∧ a.ownQueue ≠ some .heap

namespace WorkControl

variable {m m' : Machine} {e : Event}

theorem behind_step (h : WorkControl m) (hs : m.Step e m') {t : ThreadId} {a : Act}
    (ha : a ∈ (m'.acts t).tail) : a.isScheduling = false := by
  by_cases ht : t = m.current
  · subst ht
    rcases Machine.step_cases hs with ⟨-, hacts⟩ | ⟨b, rfl, -, -, rfl⟩ |
      ⟨memory, b, rest, acts, k', rfl, hacts, hk, rfl⟩
    · exact h.behind _ a (hacts ▸ ha)
    · simp at ha
    · -- the acts behind the one that was carried out, and those that follow it
      have hrest : ∀ c ∈ rest, c.isScheduling = false := fun c hc =>
        h.behind m.current c (by rwa [hacts])
      simp only [Function.update_self] at ha
      cases acts with
      | nil => exact hrest a (List.mem_of_mem_tail ha)
      | cons c acts =>
        rcases List.mem_append.mp ha with ha | ha
        · exact (Act.run_follows hk).tail ha
        · exact hrest a ha
  · rw [Machine.exec_acts_of_ne hs.2 ht] at ha
    exact h.behind t a ha

/-- Every step keeps this in which no thread calls `thread_wait` or `thread_wakeup` on the two
queues. -/
theorem step (h : WorkControl m) (hs : m.Step e m') (he : e.usesWorkQueues = false) :
    WorkControl m' where
  worker t a ha hw := by
    rcases Machine.mem_acts_of_step hs ha with hmem | ⟨-, -, hcall, -⟩ |
      ⟨-, memory, b, rest, acts, k', -, hacts, hk, -, hmem⟩
    · exact h.worker t a hmem hw
    · simp [Act.isWorker_of_isCall hcall] at hw
    · refine h.worker t b (hacts ▸ List.mem_cons_self) ?_
      rw [← ((Act.run_follows hk).leadsTo hmem).isWorker, hw]
  behind t a := h.behind_step hs
  own t a ha := by
    rcases Machine.mem_acts_of_step hs ha with hmem | ⟨-, -, -, rfl⟩ |
      ⟨-, memory, b, rest, acts, k', -, -, hk, -, hmem⟩
    · exact h.own t a hmem
    · -- such a call is excluded
      constructor <;> intro hown <;> simp [Event.usesWorkQueues, hown] at he
    · simp [Act.ownQueue_of_follows (Act.run_follows hk) hmem]

/-- A thread that is in `workqueue_schedule_work` behind an act has come there by this act. -/
theorem mem_of_head {a b : Act} {acts rest : List Act} {t : ThreadId} (h : WorkControl m)
    (hacts : m.acts t = a :: rest) (hb : (acts ++ rest).head? = some b)
    (hscheduling : b.isScheduling = true) : b ∈ acts := by
  cases acts with
  | nil =>
    have hrest := h.behind t b (by rw [hacts]; exact List.mem_of_mem_head? hb)
    rw [hrest] at hscheduling
    cases hscheduling
  | cons c acts =>
    obtain rfl := by simpa using hb
    exact List.mem_cons_self

end WorkControl

theorem workControl_boot : WorkControl boot where
  worker t a ha hw := by
    unfold boot at ha
    dsimp only at ha
    split at ha
    · obtain rfl := List.mem_singleton.mp ha
      simp [Act.isWorker] at hw
    · split at ha
      next heq => exact heq
      next => simp at ha
  behind t a ha := by
    rcases mem_boot_acts (List.mem_of_mem_tail ha) with rfl | rfl <;> rfl
  own t a ha := by
    rcases mem_boot_acts ha with rfl | rfl <;> simp [Act.ownQueue]

end GeekOS
