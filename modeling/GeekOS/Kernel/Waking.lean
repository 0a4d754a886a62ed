import GeekOS.Kernel.Destruction
import GeekOS.Kernel.Mutex
import GeekOS.Kernel.OnePlace

/-!
# Waking one thread

`thread_wakeup_one` tests whether `thread_queue_remove_first` has returned a thread, but the
assertion in there has halted the kernel if the queue was empty. Of its callers, only
`mutex_unlock_imp` looks at the queue first.

* `Machine.WakesSafely`: no assertion about the head of a queue fails, and the first waiter, and
  nobody else, is woken;
* `wakesSafely_iff_sleeper`: this holds in every state of a run exactly when each of the other
  callers finds a waiter;
* `not_wakesSafely_signal`: a signal without a waiter.
-/

namespace GeekOS

open Result TransitionSystem

/-- At most the first waiter of the queue is made runnable; without one, nothing happens. -/
def Sched.WakesFirst (s : Sched) (q : WaitQueue) (s' : Sched) : Prop :=
  match s.queue (.wait q) with
  | [] => s' = s
  | t :: rest =>
      s'.queue (.wait q) = rest ∧
        StableInsert.Splits (s.queue .runqueue) t (s'.queue .runqueue) ∧
        (∀ q', q' ≠ .wait q → q' ≠ .runqueue → s'.queue q' = s.queue q') ∧
        s'.gCurrent = s.gCurrent ∧ ∀ u, u ≠ t → s'.threads u = s.threads u

theorem threadWakeupOne_wakesFirst {s s' : Sched} {q : WaitQueue}
    (h : threadWakeupOne q s = .ok s') : s.WakesFirst q s' := by
  obtain ⟨t, rest, th, hq, -, -, -, rfl⟩ := threadWakeupOne_eq_ok.mp h
  unfold Sched.WakesFirst
  rw [hq]
  refine ⟨by simp [scheduleInto], ?_, ?_, rfl, ?_⟩
  · simpa [scheduleInto] using splits_scheduler _ _ _
  · intro q' hq' hrun
    simp [scheduleInto, hq', hrun]
  · intro u hu
    exact Function.update_of_ne hu ..

namespace Act

/-- The queue from which the act takes the first waiter, where no caller has looked for one. -/
def wakesUntested : Act → Option WaitQueue
  | .thread (.wakeupOne q) => some q
  | .work (.link _ _) => some .work
  | .synch (.condSignal c) => some (.cond c)
  | _ => none

theorem wakesOne_of_wakesUntested {a : Act} {q : WaitQueue} (h : a.wakesUntested = some q) :
    a.wakesOne = some q := by
  unfold wakesUntested at h
  split at h
  next => exact h
  next => exact h
  next => exact h
  next => simp at h

variable {memory : Memory} {k : Kernel} {a : Act} {q : WaitQueue}

/-- An act that takes the first waiter of a queue succeeds if `thread_wakeup_one` does. -/
theorem run_wakesOne (memory : Memory) {s : Sched} (ha : a.wakesOne = some q)
    (h : threadWakeupOne q k.sched = .ok s) :
    ∃ acts k', a.run memory k = .ok (acts, k') ∧ k'.sched = s := by
  unfold wakesOne at ha
  split at ha <;> simp only [Option.some.injEq, reduceCtorEq] at ha <;> subst ha <;>
    exact ⟨_, _, atomically_eq_ok.mpr ⟨rfl, s, h, rfl⟩, rfl⟩

/-- It fails if `thread_wakeup_one` does. -/
theorem run_wakesOne_error {f : Fault} (ha : a.wakesOne = some q)
    (h : threadWakeupOne q k.sched = .error f) : a.run memory k = .error f := by
  unfold wakesOne at ha
  split at ha <;> simp only [Option.some.injEq, reduceCtorEq] at ha <;> subst ha <;>
    simp [run, ThreadAct.run, WorkAct.run, SynchAct.run, Kernel.atomically, h]

end Act

namespace Machine

variable (m : Machine)

/-- Waking is safe in the state: the assertion of `thread_queue_remove_first` does not fail, and
`thread_wakeup_one` returns and has made at most the first waiter runnable. -/
structure WakesSafely : Prop where
  head : ∀ e q, m.Enabled e → m.exec e ≠ .error (.assertion (.listHead q))
  one : ∀ memory a rest q, m.acts m.current = a :: rest → a.wakesOne = some q →
    ∃ m', m.exec (.resume memory) = .ok m' ∧ m.kernel.sched.WakesFirst q m'.kernel.sched

/-- If the current thread is about to signal a condition, to schedule work or to call
`thread_wakeup_one` itself, then a thread waits in the queue. -/
def SleeperWaits : Prop :=
  ∀ a rest q, m.acts m.current = a :: rest → a.wakesUntested = some q →
    m.kernel.sched.queue (.wait q) ≠ []

variable {m} {a : Act} {rest : List Act} {q : WaitQueue}

/-- Wherever `thread_wakeup_one` is called, a thread waits: `mutex_unlock_imp` has tested it. -/
theorem SleeperWaits.queue_ne_nil (h : m.SleeperWaits) (hr : Reachable Step boot m)
    (hacts : m.acts m.current = a :: rest) (ha : a.wakesOne = some q) :
    m.kernel.sched.queue (.wait q) ≠ [] := by
  by_cases htest : ∃ x caller, a = .synch (.unlockWake x caller)
  · obtain ⟨x, caller, rfl⟩ := htest
    obtain rfl : WaitQueue.mutex x = q := Option.some.inj ha
    have hpre : (SynchAct.unlockWake x caller).Pre m.kernel m.current :=
      (reachable_mutexSafe hr).pre _ _ (hacts ▸ List.mem_cons_self)
    exact hpre.2
  · refine h a rest q hacts ?_
    unfold Act.wakesOne at ha
    split at ha
    next => exact ha
    next => exact ha
    next x caller => exact absurd ⟨x, caller, rfl⟩ htest
    next => exact ha
    next => simp at ha

/-- A call of `thread_wakeup_one` on an empty queue halts the kernel. -/
theorem exec_wakesOne_nil {memory : Memory} (hacts : m.acts m.current = a :: rest)
    (ha : a.wakesOne = some q) (hempty : m.kernel.sched.queue (.wait q) = []) :
    m.exec (.resume memory) = .error (.assertion (.listHead (.wait q))) := by
  have herr : threadWakeupOne q m.kernel.sched = .error (.assertion (.listHead (.wait q))) := by
    simp [threadWakeupOne, threadQueueRemoveFirst, hempty]
  simp [exec, hacts, Act.run_wakesOne_error ha herr]

/-- In a reachable state, waking is safe exactly when the callers that do not look find a waiter. -/
theorem wakesSafely_iff (hr : Reachable Step boot m) : m.WakesSafely ↔ m.SleeperWaits := by
  constructor
  · intro h a rest q hacts ha hempty
    refine h.head (.resume .available) (.wait q) (by simp [Enabled, hacts]) ?_
    exact exec_wakesOne_nil hacts (Act.wakesOne_of_wakesUntested ha) hempty
  · intro h
    refine ⟨fun e q _ herr => ?_, fun memory a rest q hacts ha => ?_⟩
    · rcases exec_error herr with ⟨memory, a, rest, rfl, hacts, hrun⟩ | hf | ⟨-, o, ho⟩
      · cases Act.run_error hrun with
        | noSleeper hq hempty => exact h.queue_ne_nil hr hacts hq hempty
        | noRunnable => exact (reachable_idleRuns hr).exec_ne_error herr
        | check hc => exact hc _ rfl
        | dangling hf | freed hf | notFresh hf | accessed hf =>
          obtain ⟨o, ho⟩ := hf
          simp at ho
      · simp at hf
      · simp at ho
    · cases hwake : threadWakeupOne q m.kernel.sched with
      | ok s =>
        obtain ⟨acts, k', hrun, rfl⟩ := Act.run_wakesOne memory ha hwake
        refine ⟨⟨k', Function.update m.acts m.current (acts ++ rest)⟩, ?_,
          threadWakeupOne_wakesFirst hwake⟩
        simp [exec, hacts, hrun]
      | error f =>
        rcases threadWakeupOne_error hwake with ⟨hempty, -⟩ | ⟨hd, -⟩
        · exact absurd hempty (h.queue_ne_nil hr hacts ha)
        · exact absurd hd (reachable_not_dangling hr)

end Machine

/-- Waking is safe in every state of a run exactly when, in each of them, a thread waits wherever
a condition is signalled, work is scheduled or `thread_wakeup_one` is called. -/
theorem wakesSafely_iff_sleeper {tr : List (Machine × Event)} {m : Machine}
    (h : Run Machine.Step boot tr m) :
    (∀ n ∈ visited tr m, n.WakesSafely) ↔ ∀ n ∈ visited tr m, n.SleeperWaits :=
  forall₂_congr fun _ hn => Machine.wakesSafely_iff (h.reachable_of_visited hn)

/-- A thread signals a condition for which no thread waits. -/
def emptySignal : List Event := [.call (.synch (.condSignal 0))]

/-- A thread exits, and schedules its destruction before the workqueue thread has slept once. -/
def busyWorkqueue : List Event := Machine.call (.thread (.exit 0)) 2

/-- The law above on the run in which a condition is signalled. -/
theorem wakesSafely_iff_sleeper_signal :
    ∃ tr m, Run Machine.Step boot tr m ∧ tr.map Prod.snd = emptySignal ∧
      ((∀ n ∈ visited tr m, n.WakesSafely) ↔ ∀ n ∈ visited tr m, n.SleeperWaits) := by
  obtain ⟨tr, hr, htr⟩ := Machine.run_after emptySignal (by decide)
  exact ⟨tr, _, hr, htr, wakesSafely_iff_sleeper hr⟩

/-- The signal halts the kernel, and so does work that is scheduled while the workqueue thread is
runnable. -/
theorem not_wakesSafely_signal :
    (Reachable Machine.Step boot (Machine.after emptySignal) ∧
      (Machine.after emptySignal).exec (.resume .available) =
        .error (.assertion (.listHead (.wait (.cond 0)))) ∧
      ¬(Machine.after emptySignal).WakesSafely) ∧
    Reachable Machine.Step boot (Machine.after busyWorkqueue) ∧
      (Machine.after busyWorkqueue).exec (.resume .available) =
        .error (.assertion (.listHead (.wait .work))) ∧
      ¬(Machine.after busyWorkqueue).WakesSafely := by
  have hcall : (Machine.after emptySignal).acts (Machine.after emptySignal).current =
      [.synch (.condSignal 0)] := by decide
  have hlink : (Machine.after busyWorkqueue).acts (Machine.after busyWorkqueue).current =
      [.work (.link (.threadDestroy 0) false), .thread (.exitFinish 0)] := by decide
  have hsignal : (Machine.after emptySignal).exec (.resume .available) =
      .error (.assertion (.listHead (.wait (.cond 0)))) :=
    Machine.exec_wakesOne_nil hcall rfl (by decide)
  have hwork : (Machine.after busyWorkqueue).exec (.resume .available) =
      .error (.assertion (.listHead (.wait .work))) :=
    Machine.exec_wakesOne_nil hlink rfl (by decide)
  refine ⟨⟨Machine.reachable_after (by decide), hsignal, fun h => ?_⟩,
    Machine.reachable_after (by decide), hwork, fun h => ?_⟩
  · exact h.head _ _ (by decide) hsignal
  · exact h.head _ _ (by decide) hwork

end GeekOS
