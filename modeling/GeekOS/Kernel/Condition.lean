import GeekOS.Kernel.Destruction
import GeekOS.Kernel.Mutex
import GeekOS.Kernel.Waking

/-!
# Conditions

`cond_wait` gives the mutex up and goes to sleep in two acts with interrupts enabled in between,
but with preemption off: no thread runs before the waiter is in the queue of the condition. A
signal then takes the longest-waiting thread out of it, a broadcast all of them, and each of them
returns from `cond_wait` with the mutex.

* `Machine.Releasing.step`: the release and the insertion are one section for the other threads;
* `Machine.InCondWait.step`: a `cond_wait` that returns does so with the mutex;
* `condition_safe_of_reachable`: the result.
-/

namespace GeekOS

open Result TransitionSystem

/-! ## The wait queue -/

/-- A thread that goes to sleep is the last in the queue. -/
theorem threadWait_queue {q : WaitQueue} {s s' : Sched} (h : threadWait q s = .ok s') :
    s'.queue (.wait q) = s.queue (.wait q) ++ [s.gCurrent] := by
  simp only [threadWait, threadSchedule, threadSwitchTo, bind_eq_ok, Prod.exists,
    threadRelinquishCpu_eq_ok, threadNextRunnable_eq_ok, pure_eq_ok] at h
  obtain ⟨-, -, _, ⟨th, -, -, -, rfl⟩, t, _, ⟨rest, th', -, -, -, -, rfl⟩, -, -, rfl⟩ := h
  simp [threadQueueAppend]

theorem threadPark_queue {q : WaitQueue} {s s' : Sched} (h : threadPark q s = .ok s') :
    s'.queue (.wait q) = s.queue (.wait q) ++ [s.gCurrent] := by
  obtain ⟨_, -, h⟩ := bind_eq_ok.mp h
  exact threadWait_queue (s := { s with gPreemption := true }) h

/-- Every sleeper of the queue is made runnable, once, and the other queues are left alone. -/
structure Sched.WakesAll (s : Sched) (q : WaitQueue) (s' : Sched) : Prop where
  empty : s'.queue (.wait q) = []
  runqueue : (s'.queue .runqueue).Perm (s.queue (.wait q) ++ s.queue .runqueue)
  sublist : (s.queue .runqueue).Sublist (s'.queue .runqueue)
  others : ∀ q', q' ≠ .wait q → q' ≠ .runqueue → s'.queue q' = s.queue q'

theorem threadWakeup_wakesAll {q : WaitQueue} {s s' : Sched} (h : threadWakeup q s = .ok s') :
    s.WakesAll q s' := by
  -- the threads woken so far are those that the queue had in front
  have hrule := threadWakeup_rule (I := fun s' => ∃ woken,
      s.queue (.wait q) = woken ++ s'.queue (.wait q) ∧
      (s'.queue .runqueue).Perm (woken ++ s.queue .runqueue) ∧
      (s.queue .runqueue).Sublist (s'.queue .runqueue) ∧
      ∀ q', q' ≠ .wait q → q' ≠ .runqueue → s'.queue q' = s.queue q') ?_
    ⟨[], rfl, .refl _, .refl _, fun _ _ _ => rfl⟩ h
  · obtain ⟨⟨woken, hq, hrun, hsub, hothers⟩, hempty⟩ := hrule
    rw [hempty, List.append_nil] at hq
    exact ⟨hempty, hq ▸ hrun, hsub, hothers⟩
  rintro a b ⟨woken, hq, hrun, hsub, hothers⟩ hone
  have hfirst := threadWakeupOne_wakesFirst hone
  obtain ⟨t, rest, th, hhead, -⟩ := threadWakeupOne_eq_ok.mp hone
  unfold Sched.WakesFirst at hfirst
  rw [hhead] at hfirst
  obtain ⟨hrest, hsplits, hsame, -⟩ := hfirst
  refine ⟨woken ++ [t], ?_, ?_, ?_, fun q' hne hne' => (hsame q' hne hne').trans (hothers q' hne hne')⟩
  · rw [hq, hhead, hrest, List.append_assoc, List.singleton_append]
  · refine hsplits.perm.trans ((hrun.cons t).trans ?_)
    rw [List.append_assoc, List.singleton_append]
    exact List.perm_middle.symm
  · obtain ⟨l₁, l₂, hl, hr⟩ := hsplits
    rw [hr]
    refine hsub.trans ?_
    rw [hl]
    exact (List.sublist_cons_self t l₂).append_left l₁

/-- `mem_free` wakes every sleeper of `mem_alloc`. -/
theorem memFree_wakesAll {o : Object} {s s' : Sched} (h : memFree o s = .ok s') :
    s.WakesAll .heap s' := by
  -- giving the object back moves no thread
  have hall := threadWakeup_wakesAll h
  exact ⟨hall.empty, hall.runqueue, hall.sublist, hall.others⟩

theorem memFreeFrame_wakesAll {o : Object} {s s' : Sched} (h : memFreeFrame o s = .ok s') :
    s.WakesAll .frame s' := by
  have hall := threadWakeup_wakesAll h
  exact ⟨hall.empty, hall.runqueue, hall.sublist, hall.others⟩

/-! ## The section of `cond_wait` -/

namespace SynchAct

/-- The act stands between the release of the mutex and the insertion in the wait queue. -/
def Releases (c : ConditionId) (x : MutexId) (a : SynchAct) : Prop :=
  a = .unlockOwner x (.cond c) ∨ a = .unlockTest x (.cond c) ∨ a = .unlockWake x (.cond c) ∨
    a = .condPark c x

/-- The act belongs to a `cond_wait` on the condition with the mutex. -/
def InCondWait (c : ConditionId) (x : MutexId) : SynchAct → Prop
  | .condWait c' x' | .condPark c' x' | .condParked c' x' => c' = c ∧ x' = x
  | .unlockImp x' caller | .unlockState x' caller | .unlockOwner x' caller | .unlockTest x' caller
  | .unlockWake x' caller | .lockImp x' caller | .lockTest x' caller | .lockPark x' caller
  | .lockParked x' caller | .lockState x' caller | .lockOwner x' caller
  | .lockReturn x' caller => caller = .cond c ∧ x' = x
  | _ => False

end SynchAct

section Act

variable {k k' : Kernel} {a : SynchAct} {acts : List Act} {c : ConditionId} {x : MutexId}

/-- The section goes on until the thread is in the queue. -/
theorem SynchStep.releases (h : SynchStep k a acts k') (ha : a.Releases c x)
    (hpark : a ≠ .condPark c x) : ∃ b, acts = [.synch b] ∧ b.Releases c x := by
  rcases ha with rfl | rfl | rfl | rfl
  · cases h with
    | unlockOwner => exact ⟨_, rfl, .inr (.inl rfl)⟩
  · cases h with
    | unlockAlone => exact ⟨_, rfl, .inr (.inr (.inr rfl))⟩
    | unlockWaited => exact ⟨_, rfl, .inr (.inr (.inl rfl))⟩
  · cases h with
    | unlockWake => exact ⟨_, rfl, .inr (.inr (.inr rfl))⟩
  · exact absurd rfl hpark

/-- A `cond_wait` goes on until it returns behind `mutex_lock_imp`. -/
theorem SynchStep.inCondWait (h : SynchStep k a acts k') (ha : a.InCondWait c x) :
    (∃ b, acts = [.synch b] ∧ b.InCondWait c x) ∨
      acts = [] ∧ a = .lockReturn x (.cond c) ∧ k' = (k.setPreemption true).hold x := by
  cases h with
  | lockReturn =>
    obtain ⟨rfl, rfl⟩ := ha
    exact .inr ⟨rfl, rfl, rfl⟩
  | lockImp | lockBusy | lockFree | lockPark | lockParked | lockState | lockOwner | unlockImp
  | unlockState | unlockOwner | unlockWaited | condPark =>
    exact .inl ⟨_, rfl, ha⟩
  | unlockAlone | unlockWake =>
    obtain ⟨rfl, rfl⟩ := ha
    exact .inl ⟨_, rfl, rfl, rfl⟩
  | condWait | condParked =>
    obtain ⟨rfl, rfl⟩ := ha
    exact .inl ⟨_, rfl, rfl, rfl⟩
  | mutexLock | mutexUnlock | unlockReturn | condSignal | condBroadcast => exact ha.elim

end Act

namespace Machine

variable {m m' : Machine} {e : Event} {t : ThreadId} {c : ConditionId} {x : MutexId}

/-- The thread has given the mutex up in `cond_wait` and is not in the queue of the condition
yet. -/
def Releasing (m : Machine) (t : ThreadId) (c : ConditionId) (x : MutexId) : Prop :=
  ∃ a, m.acts t = [.synch a] ∧ a.Releases c x

/-- The event puts the thread into the queue of the condition. -/
def Inserts (m : Machine) (t : ThreadId) (c : ConditionId) (e : Event) : Prop :=
  (∃ memory, e = .resume memory) ∧ m.current = t ∧ ∃ x, m.acts t = [.synch (.condPark c x)]

/-- The current thread is about to signal the condition, or to broadcast it. -/
def Signals (m : Machine) (c : ConditionId) : Prop :=
  ∃ a rest, m.acts m.current = .synch a :: rest ∧ (a = .condSignal c ∨ a = .condBroadcast c)

/-- The thread is inside a `cond_wait`. -/
def InCondWait (m : Machine) (t : ThreadId) (c : ConditionId) (x : MutexId) : Prop :=
  ∃ a, m.acts t = [.synch a] ∧ a.InCondWait c x

/-- In this section the thread has the CPU and keeps it, and nobody has the mutex. -/
theorem Releasing.alone (h : m.Releasing t c x) (hr : Reachable Step boot m) :
    t = m.current ∧ m.kernel.sched.gPreemption = false ∧
      (m.kernel.mutex x).state = .unlocked ∧ m.kernel.holders x = [] := by
  obtain ⟨a, hacts, ha⟩ := h
  have hin : .synch a ∈ m.acts t := hacts ▸ List.mem_cons_self
  have hoff : a.preemptionOff = true := by rcases ha with rfl | rfl | rfl | rfl <;> rfl
  obtain ⟨hcur, hp⟩ := (reachable_synchControl hr).cpu t a hin hoff
  -- the mutex has been released, and this thread has had the CPU ever since
  have hpre := (reachable_mutexSafe hr).pre t a hin
  have hstate : (m.kernel.mutex x).state = .unlocked := by
    rcases ha with rfl | rfl | rfl | rfl
    · rw [show m.kernel.mutex x = { owner := some t } from hpre]
    · exact hpre
    · exact hpre.1
    · exact hpre
  refine ⟨hcur, hp, hstate, List.eq_nil_iff_forall_not_mem.mpr fun u hu => ?_⟩
  simp [(reachable_mutexSafe hr).holder x u hu] at hstate

theorem Releasing.not_signals (h : m.Releasing t c x) (ht : t = m.current) : ¬m.Signals c := by
  rintro ⟨b, rest, hacts', hb⟩
  obtain ⟨a, hacts, ha⟩ := h
  rw [ht, hacts'] at hacts
  obtain rfl : b = a := by simpa using (List.cons.inj hacts).1
  rcases hb with rfl | rfl <;> simp [SynchAct.Releases] at ha

/-- What a step does to the act of `synch.c` that a thread is about to go through: nothing, or the
thread has the CPU and goes through it. -/
theorem step_synch {a : SynchAct} (hs : m.Step e m') (hacts : m.acts t = [.synch a]) :
    m'.acts t = [.synch a] ∨ t = m.current ∧ ∃ memory acts, e = .resume memory ∧
      SynchStep m.kernel a acts m'.kernel ∧ m'.acts t = acts := by
  by_cases ht : t = m.current
  · subst ht
    rcases step_cases hs with ⟨-, hacts'⟩ | ⟨b, -, hnil, -⟩ |
      ⟨memory, b, rest, acts, k', rfl, hacts₁, hk, rfl⟩
    · exact .inl (by rw [hacts', hacts])
    · simp [hacts] at hnil
    · obtain ⟨rfl, rfl⟩ := List.cons.inj (hacts.symm.trans hacts₁)
      exact .inr ⟨rfl, memory, acts, rfl, SynchAct.run_step hk, by simp⟩
  · exact .inl (by rw [exec_acts_of_ne hs.2 ht, hacts])

/-- The section ends with the insertion. -/
theorem Releasing.step (h : m.Releasing t c x) (hs : m.Step e m') (he : ¬m.Inserts t c e) :
    m'.Releasing t c x := by
  obtain ⟨a, hacts, ha⟩ := h
  rcases step_synch hs hacts with hsame | ⟨rfl, memory, acts, rfl, hstep, hacts'⟩
  · exact ⟨a, hsame, ha⟩
  · -- the insertion is what the event is not
    have hpark : a ≠ .condPark c x := by
      rintro rfl
      exact he ⟨⟨memory, rfl⟩, rfl, x, hacts⟩
    obtain ⟨b, rfl, hb⟩ := hstep.releases ha hpark
    exact ⟨b, hacts', hb⟩

/-- Until the insertion, every state of a run is in this section. -/
theorem Releasing.run {tr : List (Machine × Event)} {n : Machine} (h : m.Releasing t c x)
    (hrun : Run Step m tr n) (he : ∀ p ∈ tr, ¬p.1.Inserts t c p.2) : n.Releasing t c x :=
  hrun.invariant_of_steps (I := fun n => n.Releasing t c x) (C := fun n e => ¬n.Inserts t c e) he h
    fun _ _ _ hI hC hs => hI.step hs hC

/-- The insertion puts the thread behind those that wait already. -/
theorem Inserts.queue (h : m.Inserts t c e) (hs : m.Step e m') :
    m'.kernel.sched.queue (.wait (.cond c)) = m.kernel.sched.queue (.wait (.cond c)) ++ [t] := by
  obtain ⟨⟨memory, rfl⟩, rfl, x, hacts⟩ := h
  obtain ⟨acts, k', hk, rfl⟩ := (exec_resume hacts).mp hs.2
  cases SynchAct.run_step hk with
  | condPark hpark => exact threadPark_queue hpark

/-- A step of a thread in `cond_wait` leaves it there, or the thread returns with the mutex. -/
theorem InCondWait.step (h : m.InCondWait t c x) (hr : Reachable Step boot m)
    (hs : m.Step e m') : m'.InCondWait t c x ∨
      m'.acts t = [] ∧ t = m'.current ∧ t ∈ m'.kernel.holders x ∧
        m'.kernel.mutex x = { state := .locked, owner := some t } := by
  obtain ⟨a, hacts, ha⟩ := h
  rcases step_synch hs hacts with hsame | ⟨rfl, memory, acts, rfl, hstep, hacts'⟩
  · exact .inl ⟨a, hsame, ha⟩
  · rcases hstep.inCondWait ha with ⟨b, rfl, hb⟩ | ⟨rfl, rfl, hk⟩
    · exact .inl ⟨b, hacts', hb⟩
    · have hpre : (SynchAct.lockReturn x (.cond c)).Pre m.kernel m.current :=
        (reachable_mutexSafe hr).pre _ _ (hacts ▸ List.mem_cons_self)
      refine .inr ⟨hacts', ?_, ?_, ?_⟩
      · unfold current
        rw [hk]
        rfl
      · rw [hk]
        exact Kernel.mem_hold.mpr (.inr ⟨rfl, rfl⟩)
      · rw [hk]
        exact hpre

/-- A signal with a waiter succeeds, and wakes the first one. -/
theorem exec_condSignal {memory : Memory} {rest : List Act} (hr : Reachable Step boot m)
    (hacts : m.acts m.current = .synch (.condSignal c) :: rest)
    (hwait : m.kernel.sched.queue (.wait (.cond c)) ≠ []) :
    ∃ m', m.exec (.resume memory) = .ok m' ∧
      m.kernel.sched.WakesFirst (.cond c) m'.kernel.sched := by
  have hsafe : m.WakesSafely := (wakesSafely_iff hr).mpr ?_
  · exact hsafe.one memory _ rest _ hacts rfl
  intro a rest' q hacts' ha
  obtain ⟨rfl, -⟩ := List.cons.inj (hacts.symm.trans hacts')
  obtain rfl := Option.some.inj ha
  exact hwait

/-- A broadcast succeeds, and wakes all of them. -/
theorem exec_condBroadcast {memory : Memory} {rest : List Act} (hr : Reachable Step boot m)
    (hacts : m.acts m.current = .synch (.condBroadcast c) :: rest) :
    ∃ m', m.exec (.resume memory) = .ok m' ∧
      m.kernel.sched.WakesAll (.cond c) m'.kernel.sched := by
  cases hwake : threadWakeup (.cond c) m.kernel.sched with
  | ok s =>
    refine ⟨⟨{ m.kernel with sched := s }, Function.update m.acts m.current rest⟩, ?_,
      threadWakeup_wakesAll hwake⟩
    simp [exec, hacts, Act.run, SynchAct.run, Kernel.atomically, hwake]
  | error f => exact absurd (threadWakeup_error hwake).1 (reachable_not_dangling hr)

end Machine

/-- In every reachable state: while a waiter has released the mutex and is not in the queue of the
condition yet, it has the CPU in every continuation of the run, with preemption off; nobody
acquires the mutex, signals or broadcasts. Its insertion puts it last in the queue. A signal with a
waiter wakes the first waiter only, which has waited longer than the others, and a broadcast all of
them. A thread leaves `cond_wait` only with the mutex. -/
theorem condition_safe_of_reachable {m : Machine} (h : Reachable Machine.Step boot m)
    (c : ConditionId) :
    (∀ t x, m.Releasing t c x → ∀ tr n, Run Machine.Step m tr n →
      (∀ p ∈ tr, ¬p.1.Inserts t c p.2) → t = n.current ∧ ¬n.Signals c ∧
        n.kernel.sched.gPreemption = false ∧ (n.kernel.mutex x).state = .unlocked ∧
        n.kernel.holders x = []) ∧
    (∀ t e m', m.Inserts t c e → m.Step e m' →
      m'.kernel.sched.queue (.wait (.cond c)) =
        m.kernel.sched.queue (.wait (.cond c)) ++ [t]) ∧
    (∀ memory acts, m.acts m.current = .synch (.condSignal c) :: acts →
      ∀ t rest, m.kernel.sched.queue (.wait (.cond c)) = t :: rest →
        (∀ u ∈ rest, m.kernel.sched.stamp t < m.kernel.sched.stamp u) ∧
        ∃ m', m.exec (.resume memory) = .ok m' ∧
          m.kernel.sched.WakesFirst (.cond c) m'.kernel.sched) ∧
    (∀ memory acts, m.acts m.current = .synch (.condBroadcast c) :: acts →
      ∃ m', m.exec (.resume memory) = .ok m' ∧
        m.kernel.sched.WakesAll (.cond c) m'.kernel.sched) ∧
    ∀ t x e m', m.InCondWait t c x → m.Step e m' → m'.InCondWait t c x ∨
      m'.acts t = [] ∧ t = m'.current ∧ t ∈ m'.kernel.holders x ∧
        m'.kernel.mutex x = { state := .locked, owner := some t } := by
  refine ⟨fun t x hrel tr n hrun hno => ?_, fun t e m' hins hs => hins.queue hs,
    fun memory acts hacts t rest hq => ⟨fun u hu => ?_, ?_⟩,
    fun memory acts hacts => Machine.exec_condBroadcast h hacts,
    fun t x e m' hin hs => hin.step h hs⟩
  · have hrel' := hrel.run hrun hno
    obtain ⟨tr₀, hrun₀⟩ := h
    obtain ⟨hcur, halone⟩ := hrel'.alone (hrun₀.append hrun).reachable
    exact ⟨hcur, hrel'.not_signals hcur, halone⟩
  · -- the queue is first in, first out
    have hfifo := reachable_fifo h (.cond c)
    rw [hq] at hfifo
    exact (List.pairwise_cons.mp hfifo).1 u hu
  · exact Machine.exec_condSignal h hacts (by simp [hq])

/-- The thread of `geekos_main` locks mutex 0 and has released it in `cond_wait`. -/
def condWaiter : List Event :=
  Machine.call (.synch (.mutexLock 0)) 6 ++ Machine.call (.synch (.condWait 0 0)) 3

/-- The law above there. -/
theorem condition_safe_condWaiter :
    (Machine.after condWaiter).current = 0 ∧
      (Machine.after condWaiter).kernel.sched.gPreemption = false ∧
      ((Machine.after condWaiter).kernel.mutex 0).state = .unlocked := by
  have hacts : (Machine.after condWaiter).acts 0 = [.synch (.unlockOwner 0 (.cond 0))] := by decide
  obtain ⟨hcur, -, hp, hstate, -⟩ :=
    (condition_safe_of_reachable (m := Machine.after condWaiter)
      (Machine.reachable_after (by decide)) 0).1 0 0 ⟨_, hacts, .inl rfl⟩ [] _ (.nil _) (by simp)
  exact ⟨hcur.symm, hp, hstate⟩

end GeekOS
