import GeekOS.Kernel.Mutex
import GeekOS.Kernel.OnePlace

/-!
# No wakeup of a mutex is lost

An unlock wakes one thread, which does not own the mutex then: another thread can take it first,
and the woken one goes back to sleep. What is kept is that an unlocked mutex with sleepers has a
woken thread on its way to try again, except where an unlock has not yet woken anybody.

* `WakeupSafe`: the invariant, for runs in which only `synch.c` uses the wait queues of mutexes;
* `mutex_safe_of_run`: mutual exclusion, the owner, and no lost wakeup.
-/

namespace GeekOS

open Result TransitionSystem

/-! ## The wait queue of a mutex -/

/-- The queue a thread waits in or wakes by a call of `thread_wait`, `thread_wakeup` or
`thread_wakeup_one` of its own. -/
def Act.ownQueue : Act → Option WaitQueue
  | .thread (.wait q) | .thread (.wakeup q) | .thread (.wakeupOne q) => some q
  | _ => none

/-- The thread waits in the queue of a mutex or wakes its sleepers without `synch.c`. -/
def Event.usesMutexQueue : Event → Bool
  | .call a =>
      match a.ownQueue with
      | some (.mutex _) => true
      | _ => false
  | _ => false

/-- Only an unlock wakes the sleepers of a mutex. -/
theorem Act.wakes_mutex {k : Kernel} {a : Act} {x : MutexId} (h : a.wakes k = some (.mutex x)) :
    (∃ caller, a = .synch (.unlockWake x caller)) ∨ a.ownQueue = some (.mutex x) := by
  cases a with
  | thread a => cases a <;> simp_all [wakes, ownQueue]
  | work a => cases a <;> simp_all [wakes]
  | synch a => cases a <;> simp_all [wakes]
  | keyboard a | simulation a => simp [wakes] at h

/-- An allocation sleeps in a queue of the allocator. -/
theorem Allocation.sleepsOn_ne_mutex (a : Allocation) (memory : Memory) (x : MutexId) :
    a.sleepsOn memory ≠ some (.mutex x) := by
  cases a <;> cases memory <;> simp [Allocation.sleepsOn]

theorem JobCreation.sleepsOn_ne_mutex (c : JobCreation) (memory : Memory) (x : MutexId) :
    c.sleepsOn memory ≠ some (.mutex x) := by
  cases c with
  | alloc a => exact a.sleepsOn_ne_mutex memory x
  | _ => simp [JobCreation.sleepsOn]

/-- Only a lock sleeps in the queue of a mutex. -/
theorem Act.sleepsOn_mutex {memory : Memory} {k : Kernel} {a : Act} {x : MutexId}
    (h : a.sleepsOn memory k = some (.mutex x)) :
    (∃ caller, a = .synch (.lockPark x caller)) ∨ a.ownQueue = some (.mutex x) := by
  cases a with
  | thread a =>
    cases a with
    | wait q => exact .inr h
    | create mode b => exact absurd h (b.sleepsOn_ne_mutex memory x)
    | createFromJob job mode c => exact absurd h (c.sleepsOn_ne_mutex memory x)
    | joinTest child caller =>
      simp only [sleepsOn] at h
      split at h
      · split at h <;> simp at h
      · simp at h
    | _ => simp [sleepsOn] at h
  | work a => cases a <;> simp_all [sleepsOn]
  | keyboard a => cases a <;> simp_all [sleepsOn]
  | synch a => cases a <;> simp_all [sleepsOn]
  | simulation a =>
    cases a with
    | longTermScheduler joblist threads c =>
      cases joblist with
      | nil => simp [sleepsOn] at h
      | cons job rest => exact absurd h (c.sleepsOn_ne_mutex memory x)
    | _ => simp [sleepsOn] at h

/-- What follows an act does not wait or wake on its own. -/
theorem Act.ownQueue_of_follows {k : Kernel} {a b : Act} {acts : List Act} (h : b.Follows k acts)
    (ha : a ∈ acts) : a.ownQueue = none := by
  cases h.leadsTo ha <;> rfl

/-- Who is among the woken threads behind an act: who was before and has not tried to take the
mutex, or the head of the wait queue that the act has just woken. -/
theorem SynchStep.mem_woken {k k' : Kernel} {a : SynchAct} {acts : List Act}
    (h : SynchStep k a acts k') {x : MutexId} {t : ThreadId} (ht : t ∈ k'.woken x) :
    t ∈ k.woken x ∨ ∃ caller rest, a = .unlockWake x caller ∧
      k.sched.queue (.wait (.mutex x)) = t :: rest ∧ t ∈ k'.sched.queue .runqueue := by
  cases h with
  | lockBusy | lockState => exact .inl (Kernel.mem_unwake.mp ht).1
  | @unlockWake y caller s hs =>
    obtain ⟨u, rest, th, hq, -, -, -, rfl⟩ := threadWakeupOne_eq_ok.mp hs
    by_cases hxy : x = y
    · subst hxy
      rcases List.mem_cons.mp (by simpa [hq] using ht) with rfl | ht
      · exact .inr ⟨caller, rest, rfl, hq, mem_scheduleInto.mpr (.inr ⟨rfl, rfl⟩)⟩
      · exact .inl ht
    · exact .inl (by simpa [Function.update_of_ne hxy] using ht)
  | _ => exact .inl ht

/-! ## The invariant -/

/-- The thread can run, and it is about to try to take the mutex again. -/
def Machine.Retries (m : Machine) (x : MutexId) (t : ThreadId) : Prop :=
  Runnable t (some m.current, m.kernel.sched) ∧
    ∃ caller, m.acts t = [.synch (.lockParked x caller)] ∨
      m.acts t = [.synch (.lockTest x caller)] ∨ m.acts t = [.synch (.lockState x caller)]

/-- The current thread is inside `mutex_unlock_imp`, behind the store that unlocks the mutex and in
front of the end of its `thread_wakeup_one`. -/
def Machine.Unlocks (m : Machine) (x : MutexId) : Prop :=
  ∃ caller, m.acts m.current = [.synch (.unlockOwner x caller)] ∨
    m.acts m.current = [.synch (.unlockTest x caller)] ∨
    m.acts m.current = [.synch (.unlockWake x caller)]

/-- The sleepers of the mutexes are where `synch.c` has left them, and none is forgotten. -/
structure WakeupSafe (m : Machine) : Prop where
  own : ∀ u a x, a ∈ m.acts u → a.ownQueue ≠ some (.mutex x)
  parked : ∀ x, ∀ t ∈ m.kernel.sched.queue (.wait (.mutex x)),
    ∃ caller, m.acts t = [.synch (.lockParked x caller)]
  woken : ∀ x, ∀ t ∈ m.kernel.woken x, m.Retries x t
  lost : ∀ x, (m.kernel.mutex x).state = .unlocked →
    m.kernel.sched.queue (.wait (.mutex x)) ≠ [] → m.kernel.woken x ≠ [] ∨ m.Unlocks x

namespace WakeupSafe

variable {m m' : Machine} {e : Event}

/-- A thread with acts that are neither a sleep nor an exit keeps running. -/
theorem runnable_of_acts {t : ThreadId} (hs : m.Step e m')
    (ht : Runnable t (some m.current, m.kernel.sched))
    (hcur : t = m.current → ∃ a, m.acts t = [.synch a] ∧
      ∀ memory, (Act.synch a).sleepsOn memory m.kernel = none) :
    Runnable t (some m'.current, m'.kernel.sched) := by
  refine (Machine.exec_moves hs.2).stays_runnable (fun q hq => ?_) (fun code hcode => ?_) ht
  · obtain ⟨hsleeps, rfl⟩ := Machine.sleeps_of_allows_block hq
    obtain ⟨a, ha, hnone⟩ := hcur rfl
    cases e with
    | resume memory => simp [Machine.sleeps, ha, hnone] at hsleeps
    | call | timer | keyboard => simp [Machine.sleeps] at hsleeps
  · cases e with
    | resume memory =>
      obtain ⟨a, rest, hacts, hc, rfl⟩ := hcode
      obtain ⟨b, hb, -⟩ := hcur hc
      rw [hc] at hb
      simp [show m.acts m.current = _ from hb] at hacts
    | call | timer | keyboard => simp [Machine.Allows] at hcode

/-- An unlock and a lock apart, the wait queue of a mutex stays as it is. -/
theorem queue_eq (h : WakeupSafe m) (hc : SynchControl m) (hs : m.Step e m') {x : MutexId}
    (hwake : ∀ caller, m.acts m.current ≠ [.synch (.unlockWake x caller)])
    (hpark : ∀ caller, m.acts m.current ≠ [.synch (.lockPark x caller)]) :
    m'.kernel.sched.queue (.wait (.mutex x)) = m.kernel.sched.queue (.wait (.mutex x)) := by
  refine (Machine.exec_moves hs.2).queue_wait_eq (fun hA => ?_) fun t hA => ?_
  · cases e with
    | resume memory =>
      obtain ⟨a, rest, hacts, ha⟩ := hA
      have hmem : a ∈ m.acts m.current := hacts ▸ List.mem_cons_self
      rcases Act.wakes_mutex ha with ⟨caller, rfl⟩ | hown
      · exact hwake caller (hc.single _ _ hmem)
      · exact h.own _ _ _ hmem hown
    | call | timer | keyboard => simp [Machine.Allows] at hA
  · cases e with
    | resume memory =>
      obtain ⟨a, rest, hacts, -, ha⟩ := hA
      have hmem : a ∈ m.acts m.current := hacts ▸ List.mem_cons_self
      rcases Act.sleepsOn_mutex ha with ⟨caller, rfl⟩ | hown
      · exact hpark caller (hc.single _ _ hmem)
      · exact h.own _ _ _ hmem hown
    | call | timer | keyboard => simp [Machine.Allows] at hA

/-- A step in which no thread calls `thread_wait` or `thread_wakeup` on the queue of a mutex leaves
none about to do so. -/
theorem own_step (h : WakeupSafe m) (hs : m.Step e m') (he : e.usesMutexQueue = false) :
    ∀ u a x, a ∈ m'.acts u → a.ownQueue ≠ some (.mutex x) := by
  intro u a x ha hown
  rcases Machine.mem_acts_of_step hs ha with hmem | ⟨-, -, -, rfl⟩ |
    ⟨-, memory, b, rest, acts, k', -, -, hk, -, hmem⟩
  · exact h.own u a x hmem hown
  · simp [Event.usesMutexQueue, hown] at he
  · simp [Act.ownQueue_of_follows (Act.run_follows hk) hmem] at hown

/-- A sleeper of a mutex has gone to sleep in its lock. -/
theorem parked_step (h : WakeupSafe m) (hc : SynchControl m) (hp : Placed [m.current] m.kernel.sched)
    (hs : m.Step e m') : ∀ x, ∀ t ∈ m'.kernel.sched.queue (.wait (.mutex x)),
      ∃ caller, m'.acts t = [.synch (.lockParked x caller)] := by
  intro x t ht
  rcases (Machine.exec_moves hs.2).mem_wait ht with ht | hblock
  · -- a thread that slept before is not the current one
    have hne : t ≠ m.current := by
      rintro rfl
      exact hp.outside _ (List.mem_singleton_self _) _ ht
    obtain ⟨caller, hacts⟩ := h.parked x t ht
    exact ⟨caller, by rw [Machine.exec_acts_of_ne hs.2 hne, hacts]⟩
  · cases e with
    | resume memory =>
      obtain ⟨a, rest, hacts, rfl, ha⟩ := hblock
      have hmem : a ∈ m.acts m.current := hacts ▸ List.mem_cons_self
      rcases Act.sleepsOn_mutex ha with ⟨caller, rfl⟩ | hown
      · obtain ⟨acts, k', hk, rfl⟩ := (Machine.exec_resume hacts).mp hs.2
        have hrest := hc.single _ _ hmem
        obtain rfl : rest = [] := by simpa [hacts] using hrest
        obtain rfl : acts = [.synch (.lockParked x caller)] := Act.run_follows hk
        exact ⟨caller, by simp⟩
      · exact absurd hown (h.own _ _ _ hmem)
    | call | timer | keyboard => simp [Machine.Allows] at hblock

/-- A woken thread is on its way to try again. -/
theorem woken_step (h : WakeupSafe m) (hc : SynchControl m) (hp : Placed [m.current] m.kernel.sched)
    (hs : m.Step e m') : ∀ x, ∀ t ∈ m'.kernel.woken x, m'.Retries x t := by
  -- a thread that stays where it is
  have hstay : ∀ x t, m.Retries x t → m'.acts t = m.acts t → m'.Retries x t := by
    rintro x t ⟨hrun, caller, hacts⟩ hsame
    refine ⟨runnable_of_acts hs hrun fun hcur => ?_, caller, by rwa [hsame]⟩
    rcases hacts with hacts | hacts | hacts <;> exact ⟨_, hacts, fun _ => rfl⟩
  intro x t ht
  cases hc.step_cases hs with
  | interrupt he hacts hsame =>
    rw [hsame.woken] at ht
    exact hstay x t (h.woken x t ht) (by rw [hacts])
  | other hbefore hafter hsame =>
    rw [hsame.woken] at ht
    have hr := h.woken x t ht
    refine hstay x t hr (Machine.exec_acts_of_ne hs.2 ?_)
    rintro rfl
    obtain ⟨-, caller, hacts | hacts | hacts⟩ := hr <;>
      exact hbefore _ (hacts ▸ List.mem_cons_self)
  | @synch a acts k' hacts hstep hacts' hk =>
    have hmem : t ∈ k'.woken x := by rwa [← hk]
    rcases hstep.mem_woken hmem with hold | ⟨caller, rest, rfl, hq, hrun⟩
    · by_cases hcur : t = m.current
      · -- the thread goes on with its lock, and is not among the woken ones behind its try
        subst hcur
        obtain ⟨-, caller, hin⟩ := h.woken x _ hold
        simp only [hacts, List.cons.injEq, Act.synch.injEq, and_true] at hin
        rcases hin with rfl | rfl | rfl
        · cases hstep with
          | lockParked =>
            exact ⟨.inl (by simp [Machine.current, hk]), caller, .inr (.inl hacts')⟩
        · cases hstep with
          | lockBusy => exact absurd ⟨rfl, rfl⟩ (Kernel.mem_unwake.mp hmem).2
          | lockFree => exact ⟨.inl (by simp [Machine.current, hk]), caller, .inr (.inr hacts')⟩
        · cases hstep with
          | lockState => exact absurd ⟨rfl, rfl⟩ (Kernel.mem_unwake.mp hmem).2
      · exact hstay x t (h.woken x t hold) (Machine.exec_acts_of_ne hs.2 hcur)
    · have hsleeps : t ∈ m.kernel.sched.queue (.wait (.mutex x)) := hq ▸ List.mem_cons_self
      have hne : t ≠ m.current := by
        rintro rfl
        exact hp.outside _ (List.mem_singleton_self _) _ hsleeps
      obtain ⟨caller', hparked⟩ := h.parked x t hsleeps
      refine ⟨.inr (by rwa [hk]), caller', .inl ?_⟩
      rw [Machine.exec_acts_of_ne hs.2 hne, hparked]

/-- An act of `synch.c` that has nothing to do with the mutex forgets none of its sleepers. -/
theorem lost_kept (h : WakeupSafe m) (hc : SynchControl m) (hs : m.Step e m') {x : MutexId}
    {a : SynchAct} (hacts : m.acts m.current = [.synch a])
    (hne : ∀ caller, a ≠ .unlockOwner x caller ∧ a ≠ .unlockTest x caller ∧
      a ≠ .unlockWake x caller ∧ a ≠ .lockPark x caller)
    (hstate : (m.kernel.mutex x).state = .unlocked)
    (hqueue : m'.kernel.sched.queue (.wait (.mutex x)) ≠ [])
    (hwoken : m'.kernel.woken x = m.kernel.woken x) :
    m'.kernel.woken x ≠ [] ∨ m'.Unlocks x := by
  rw [h.queue_eq hc hs (fun caller hin => (hne caller).2.2.1 (by simpa [hacts] using hin))
    fun caller hin => (hne caller).2.2.2 (by simpa [hacts] using hin)] at hqueue
  rw [hwoken]
  refine .inl ((h.lost x hstate hqueue).resolve_right ?_)
  -- the unlock would be at one of the three acts that it goes through in between
  rintro ⟨caller, hin | hin | hin⟩
  · exact (hne caller).1 (by simpa [hacts] using hin)
  · exact (hne caller).2.1 (by simpa [hacts] using hin)
  · exact (hne caller).2.2.1 (by simpa [hacts] using hin)

/-- No sleeper is forgotten. -/
theorem lost_step (h : WakeupSafe m) (hc : SynchControl m) (hsafe : MutexSafe m)
    (hs : m.Step e m') : ∀ x, (m'.kernel.mutex x).state = .unlocked →
      m'.kernel.sched.queue (.wait (.mutex x)) ≠ [] → m'.kernel.woken x ≠ [] ∨ m'.Unlocks x := by
  intro x hstate hqueue
  cases hc.step_cases hs with
  | interrupt he hacts hsame =>
    rw [hsame.mutex] at hstate
    rw [MutexSafe.queue_eq_of_interrupt hs he] at hqueue
    rw [hsame.woken]
    refine (h.lost x hstate hqueue).imp_right fun ⟨caller, hin⟩ => ⟨caller, ?_⟩
    -- preemption is off, so the unlocking thread keeps the CPU
    have hp : m.kernel.sched.gPreemption = false := by
      rcases hin with hin | hin | hin <;> exact (hc.cpu _ _ (hin ▸ List.mem_cons_self) rfl).2
    rwa [hacts, Machine.current_eq_of_interrupt hs.2 he hp]
  | other hbefore hafter hsame =>
    rw [hsame.mutex] at hstate
    rw [h.queue_eq hc hs (fun caller hin => hbefore _ (hin ▸ List.mem_cons_self))
      fun caller hin => hbefore _ (hin ▸ List.mem_cons_self)] at hqueue
    rw [hsame.woken]
    refine .inl ((h.lost x hstate hqueue).resolve_right ?_)
    rintro ⟨caller, hin | hin | hin⟩ <;> exact hbefore _ (hin ▸ List.mem_cons_self)
  | @synch a acts k' hacts hstep hacts' hk =>
    have ha : a.Pre m.kernel m.current := hsafe.pre _ a (hacts ▸ List.mem_cons_self)
    have hkeep : (∀ caller, a ≠ .unlockOwner x caller ∧ a ≠ .unlockTest x caller ∧
        a ≠ .unlockWake x caller ∧ a ≠ .lockPark x caller) →
        (m.kernel.mutex x).state = .unlocked → k'.woken x = m.kernel.woken x →
        m'.kernel.woken x ≠ [] ∨ m'.Unlocks x := fun hne hstate hwoken =>
      h.lost_kept hc hs hacts hne hstate hqueue (by rw [hk, hwoken])
    -- the thread goes on with its unlock of this mutex
    have hunlock : (∃ caller, acts = [.synch (.unlockOwner x caller)] ∨
        acts = [.synch (.unlockTest x caller)] ∨ acts = [.synch (.unlockWake x caller)]) →
        k'.current = m.current → m'.kernel.woken x ≠ [] ∨ m'.Unlocks x := by
      rintro ⟨caller, hin⟩ hcur
      refine .inr ⟨caller, ?_⟩
      have hcur' : m'.current = m.current := by rw [← hcur, Machine.current, hk]
      rwa [hcur', hacts']
    rw [hk] at hstate
    cases hstep with
    | @lockBusy y caller hbusy =>
      have hne : x ≠ y := by
        rintro rfl
        simp [Kernel.unwake, hbusy] at hstate
      exact hkeep (by simp) hstate (by simp [Kernel.unwake, hne])
    | lockState y caller =>
      have hne : x ≠ y := by
        rintro rfl
        simp at hstate
      refine hkeep (by simp) ?_ (by simp [Kernel.unwake, Kernel.setState, hne])
      simpa [Kernel.setState_of_ne hne] using hstate
    | lockOwner y caller =>
      by_cases hxy : x = y
      · subst hxy
        exact hkeep (by simp) (by simpa using hstate) rfl
      · exact hkeep (by simp) (by rwa [Kernel.setOwner_of_ne hxy] at hstate) rfl
    | @lockPark y caller =>
      have hne : x ≠ y := by
        rintro rfl
        rw [show (m.kernel.mutex x).state = .locked from ha] at hstate
        simp at hstate
      exact hkeep (by simp [hne.symm]) hstate rfl
    | unlockState y caller =>
      by_cases hxy : x = y
      · subst hxy
        exact hunlock ⟨caller, .inl rfl⟩ rfl
      · refine hkeep (by simp) ?_ rfl
        rwa [Kernel.setState_of_ne hxy] at hstate
    | unlockOwner y caller =>
      by_cases hxy : x = y
      · subst hxy
        exact hunlock ⟨caller, .inr (.inl rfl)⟩ rfl
      · refine hkeep (by simp [Ne.symm hxy]) ?_ rfl
        rwa [Kernel.setOwner_of_ne hxy] at hstate
    | @unlockAlone y caller halone =>
      have hne : x ≠ y := by
        rintro rfl
        rw [hk] at hqueue
        exact hqueue halone
      exact hkeep (by simp [hne.symm]) hstate rfl
    | @unlockWaited y caller =>
      by_cases hxy : x = y
      · subst hxy
        exact hunlock ⟨caller, .inr (.inr rfl)⟩ rfl
      · exact hkeep (by simp [Ne.symm hxy]) hstate rfl
    | @unlockWake y caller s =>
      by_cases hxy : x = y
      · subst hxy
        left
        rw [hk]
        simp [show m.kernel.sched.queue (.wait (.mutex x)) ≠ [] from ha.2]
      · exact hkeep (by simp [Ne.symm hxy]) hstate (by simp [Function.update_of_ne hxy])
    | _ => exact hkeep (by simp) hstate rfl

/-- Every step keeps the invariant, if only `synch.c` uses the wait queues of mutexes. -/
theorem step (h : WakeupSafe m) (hr : Reachable Machine.Step boot m) (hs : m.Step e m')
    (he : e.usesMutexQueue = false) : WakeupSafe m' where
  own := h.own_step hs he
  parked := h.parked_step (reachable_synchControl hr) (reachable_placed hr) hs
  woken := h.woken_step (reachable_synchControl hr) (reachable_placed hr) hs
  lost := h.lost_step (reachable_synchControl hr) (reachable_mutexSafe hr) hs

end WakeupSafe

theorem wakeupSafe_boot : WakeupSafe boot where
  own u a x ha := by
    rcases mem_boot_acts ha with rfl | rfl <;> simp [Act.ownQueue]
  parked x t ht := by simp [boot_wait] at ht
  woken x t ht := by simp [boot] at ht
  lost x _ hqueue := absurd (boot_wait _) hqueue

theorem wakeupSafe_of_run {tr : List (Machine × Event)} {m : Machine}
    (h : Run Machine.Step boot tr m) (he : ∀ p ∈ tr, p.2.usesMutexQueue = false) : WakeupSafe m := by
  have hI := h.invariant_of_steps (I := fun n => Reachable Machine.Step boot n ∧ WakeupSafe n)
    (C := fun _ e => e.usesMutexQueue = false) he ⟨.refl _, wakeupSafe_boot⟩
    fun n e n' hI he hs => ⟨hI.1.tail hs, hI.2.step hI.1 hs he⟩
  exact hI.2

/-- The current thread is inside the function that has just locked the mutex or is about to unlock
it, behind or in front of both stores. -/
def Machine.Within (m : Machine) (x : MutexId) : Prop :=
  ∃ caller, m.acts m.current = [.synch (.lockReturn x caller)] ∨
    m.acts m.current = [.synch (.unlockImp x caller)] ∨
    m.acts m.current = [.synch (.unlockState x caller)]

/-- The current thread is between the stores of `mutex_lock_imp`. -/
def Machine.BetweenLockStores (m : Machine) (x : MutexId) : Prop :=
  ∃ caller, m.acts m.current = [.synch (.lockOwner x caller)]

/-- The current thread is between the stores of `mutex_unlock_imp`. -/
def Machine.BetweenUnlockStores (m : Machine) (x : MutexId) : Prop :=
  ∃ caller, m.acts m.current = [.synch (.unlockOwner x caller)]

/-- The owner of a mutex that is unlocked. -/
theorem MutexSafe.unlocked {m : Machine} (h : MutexSafe m) {x : MutexId}
    (hx : (m.kernel.mutex x).state = .unlocked) :
    (m.kernel.mutex x).owner = none ∨
      (m.kernel.mutex x).owner = some m.current ∧ m.BetweenUnlockStores x := by
  rcases h.fields x with hfree | ⟨t, ht⟩ | ⟨a, hacts, hfields⟩
  · exact .inl (by rw [hfree])
  · simp [h.holder x t ht] at hx
  · cases a with
    | unlockOwner y caller =>
      obtain ⟨rfl, hv⟩ := hfields
      exact .inr ⟨by rw [hv], caller, hacts⟩
    | lockOwner | lockReturn | unlockImp | unlockState =>
      obtain ⟨-, hv⟩ := hfields
      simp [hv] at hx
    | _ => exact hfields.elim

/-- The owner of a mutex that is locked. -/
theorem MutexSafe.locked {m : Machine} (h : MutexSafe m) {x : MutexId}
    (hx : (m.kernel.mutex x).state = .locked) :
    (∃ t, (m.kernel.mutex x).owner = some t ∧
        (t ∈ m.kernel.holders x ∨ t = m.current ∧ m.Within x)) ∨
      (m.kernel.mutex x).owner = none ∧ m.BetweenLockStores x := by
  rcases h.fields x with hfree | ⟨t, ht⟩ | ⟨a, hacts, hfields⟩
  · simp [hfree] at hx
  · exact .inl ⟨t, by rw [h.holder x t ht], .inl ht⟩
  -- the current thread is on its way through one of the two functions
  · cases a with
    | lockOwner y caller =>
      obtain ⟨rfl, hv⟩ := hfields
      exact .inr ⟨by rw [hv], caller, hacts⟩
    | lockReturn y caller =>
      obtain ⟨rfl, hv⟩ := hfields
      exact .inl ⟨_, by rw [hv], .inr ⟨rfl, caller, .inl hacts⟩⟩
    | unlockImp y caller =>
      obtain ⟨rfl, hv⟩ := hfields
      exact .inl ⟨_, by rw [hv], .inr ⟨rfl, caller, .inr (.inl hacts)⟩⟩
    | unlockState y caller =>
      obtain ⟨rfl, hv⟩ := hfields
      exact .inl ⟨_, by rw [hv], .inr ⟨rfl, caller, .inr (.inr hacts)⟩⟩
    | unlockOwner =>
      obtain ⟨-, hv⟩ := hfields
      simp [hv] at hx
    | _ => exact hfields.elim

/-- In every state of every run: at most one thread holds a mutex; the mutex is locked then, and
the thread is its owner. An unlocked mutex has no owner, but for the current thread between the
stores of `mutex_unlock_imp`; the owner of a locked one holds it, or has the CPU inside the function
that has just locked it or is about to unlock it, and it has no owner only while the current thread
is between the stores of `mutex_lock_imp`. If only `synch.c` uses the wait queues of mutexes and the
mutex is unlocked while threads wait for it, then a thread woken by an unlock can run and is about to
try again, or the current thread is between the first store of `mutex_unlock_imp` and the end of its
`thread_wakeup_one`, with preemption off. -/
theorem mutex_safe_of_run {tr : List (Machine × Event)} {m : Machine}
    (h : Run Machine.Step boot tr m) (x : MutexId) :
    (∀ t ∈ m.kernel.holders x, ∀ u ∈ m.kernel.holders x, t = u) ∧
    (∀ t ∈ m.kernel.holders x, m.kernel.mutex x = { state := .locked, owner := some t }) ∧
    ((m.kernel.mutex x).state = .unlocked → (m.kernel.mutex x).owner = none ∨
      (m.kernel.mutex x).owner = some m.current ∧ m.BetweenUnlockStores x) ∧
    ((m.kernel.mutex x).state = .locked →
      (∃ t, (m.kernel.mutex x).owner = some t ∧
        (t ∈ m.kernel.holders x ∨ t = m.current ∧ m.Within x)) ∨
      (m.kernel.mutex x).owner = none ∧ m.BetweenLockStores x) ∧
    ((∀ p ∈ tr, p.2.usesMutexQueue = false) → (m.kernel.mutex x).state = .unlocked →
      m.kernel.sched.queue (.wait (.mutex x)) ≠ [] →
      (∃ t ∈ m.kernel.woken x, m.Retries x t) ∨
        m.Unlocks x ∧ m.kernel.sched.gPreemption = false) := by
  have hc := reachable_synchControl h.reachable
  have hsafe := reachable_mutexSafe h.reachable
  refine ⟨fun t ht u hu => ?_, hsafe.holder x, hsafe.unlocked, hsafe.locked,
    fun he hstate hqueue => ?_⟩
  · have hfields := (hsafe.holder x t ht).symm.trans (hsafe.holder x u hu)
    simpa using hfields
  · have hwake := wakeupSafe_of_run h he
    rcases hwake.lost x hstate hqueue with hwoken | ⟨caller, hin⟩
    · -- whoever is on the list of the woken tries again
      obtain ⟨t, ht⟩ := List.exists_mem_of_ne_nil _ hwoken
      exact .inl ⟨t, ht, hwake.woken x t ht⟩
    · refine .inr ⟨⟨caller, hin⟩, ?_⟩
      rcases hin with hin | hin | hin <;> exact (hc.cpu _ _ (hin ▸ List.mem_cons_self) rfl).2

/-- Threads 3 and 4 are made and wait for mutex 0, which the thread of `geekos_main` has locked;
it starts to unlock it. -/
def contention : List Event :=
  Machine.call (.thread (.create .attached (.thread false))) 8 ++
  Machine.call (.thread (.create .attached (.thread false))) 8 ++
  Machine.call (.synch (.mutexLock 0)) 6 ++ Machine.call (.thread .yield) 1 ++
  -- the idle thread and the workqueue thread
  Machine.resume 2 ++
  Machine.call (.synch (.mutexLock 0)) 4 ++ Machine.call (.synch (.mutexLock 0)) 4 ++
  Machine.call (.synch (.mutexUnlock 0)) 4

/-- The law above where thread 3 has been woken and thread 4 still waits. -/
theorem mutex_safe_contention :
    ∃ t ∈ (Machine.after (contention ++ Machine.resume 2)).kernel.woken 0,
      (Machine.after (contention ++ Machine.resume 2)).Retries 0 t := by
  obtain ⟨tr, hr, hev⟩ := Machine.run_after (contention ++ Machine.resume 2) (by decide)
  have hspare : ∀ e ∈ contention ++ Machine.resume 2, e.usesMutexQueue = false := by decide
  have h := (mutex_safe_of_run hr 0).2.2.2.2
    (fun p hp => hspare p.2 (hev ▸ List.mem_map_of_mem hp)) (by decide) (by decide)
  refine h.resolve_right fun hin => ?_
  have hacts : (Machine.after (contention ++ Machine.resume 2)).acts 0 = [.synch .unlockReturn] := by
    decide
  obtain ⟨⟨caller, hin⟩, -⟩ := hin
  simp [show (Machine.after (contention ++ Machine.resume 2)).current = 0 from by decide, hacts]
    at hin

/-- Mutex 0 is unlocked while threads 3 and 4 wait for it, and no thread is about to try again:
the unlock has not come to its test yet. -/
theorem not_retries_contention :
    (∃ tr, Run Machine.Step boot tr (Machine.after contention) ∧
      ∀ p ∈ tr, p.2.usesMutexQueue = false) ∧
    ((Machine.after contention).kernel.mutex 0).state = .unlocked ∧
    (Machine.after contention).kernel.sched.queue (.wait (.mutex 0)) = [3, 4] ∧
    ∀ t, ¬(Machine.after contention).Retries 0 t := by
  refine ⟨?_, by decide, by decide, ?_⟩
  · obtain ⟨tr, hr, hev⟩ := Machine.run_after contention (by decide)
    have hspare : ∀ e ∈ contention, e.usesMutexQueue = false := by decide
    exact ⟨tr, hr, fun p hp => hspare p.2 (hev ▸ List.mem_map_of_mem hp)⟩
  · rintro t ⟨hrun, caller, hacts⟩
    have hall : ∀ t ∈ [0, 1], (Machine.after contention).acts t ∈
        [[.synch (.unlockTest 0 .mutex)], [.thread .idle]] := by decide
    have hmem : t ∈ [0, 1] := by
      rcases hrun with hcur | hq
      · obtain rfl : (0 : ThreadId) = t := Option.some.inj hcur
        exact List.mem_cons_self
      · rw [show (Machine.after contention).kernel.sched.queue .runqueue = [1] from by decide] at hq
        exact List.mem_cons_of_mem _ hq
    have hin := hall t hmem
    rcases hacts with hacts | hacts | hacts <;> simp [hacts] at hin

end GeekOS
