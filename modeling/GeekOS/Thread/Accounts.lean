import GeekOS.Thread.Placement

/-!
# The ticks and the times of threads

What the operations of the thread module do to the tick counter and the times of a thread. The
moves of the process model leave these open; here each operation is a `Booking`: it leaves the
accounts alone, opens one for a new thread, takes the first response, or takes the CPU from the
current thread, whose tick counter goes back to zero unless it ends.

A timer tick is no booking. It is described by `Ticked`, and what follows it by a booking again.
-/

namespace GeekOS

open Result

/-- The ticks of the time slice and the times of a thread. -/
structure Account where
  numTicks : ℕ
  time : TimeStat
  deriving DecidableEq, Repr

/-- The account of a thread. -/
def Thread.account (th : Thread) : Account := ⟨th.numTicks, th.process.time⟩

/-- The thread does not run any more, as `thread_not_running` tests it. -/
def ThreadState.Ended (state : ThreadState) : Prop := state = .exited ∨ state = .killed

instance (state : ThreadState) : Decidable state.Ended := inferInstanceAs (Decidable (_ ∨ _))

namespace Sched

/-- The account of a thread, if it has a record. -/
def account (s : Sched) (t : ThreadId) : Option Account := (s.threads t).map Thread.account

/-- The thread is in a queue. -/
def Queued (s : Sched) (t : ThreadId) : Prop := ∃ q, t ∈ s.queue q

/-- The thread has a record that says that it does not run any more. -/
def Ended (s : Sched) (t : ThreadId) : Prop := ∃ th, s.threads t = some th ∧ th.state.Ended

/-- The part of an operation that leads from `s` to `s'`: the accounts are `accounts` then, only
the threads of `queued` may have joined a queue, and only those of `ended` may have ended. -/
structure Effect (s s' : Sched) (accounts : ThreadId → Option Account)
    (queued ended : List ThreadId) : Prop where
  account : s'.account = accounts
  queued : ∀ u, s'.Queued u → s.Queued u ∨ u ∈ queued
  ended : ∀ u, s'.Ended u → s.Ended u ∨ u ∈ ended
  numticks : s'.gNumticks = s.gNumticks

/-- An operation that leaves the CPU to the current thread. -/
structure Kept (s s' : Sched) : Prop where
  gCurrent : s'.gCurrent = s.gCurrent
  dispatched : s'.dispatched = s.dispatched

/-- What an operation does to the accounts. -/
inductive Booking (s s' : Sched) : Prop
  | quiet (h : s.Effect s' s.account [] []) (hkept : s.Kept s')
  | opened {a : Account} (ha : a.numTicks = 0)
      (h : s.Effect s' (Function.update s.account s.nextThread (some a)) [s.nextThread] [])
      (hkept : s.Kept s')
  | responded {a : Account} (ha : s.account s.gCurrent = some a)
      (h : s.Effect s' (Function.update s.account s.gCurrent
        (some { a with time := { a.time with firstResponse := s.gNumticks } })) [] [])
      (hkept : s.Kept s')
  | switched {a : Account} (ha : s.account s.gCurrent = some a)
      (h : s.Effect s' (Function.update s.account s.gCurrent (some { a with numTicks := 0 }))
        [s.gCurrent] [])
      (hnext : s.Queued s'.gCurrent ∨ s'.gCurrent = s.gCurrent)
      (hdispatched : s'.dispatched = s.dispatched ++ [s'.gCurrent])
  | exited {a : Account} (ha : s.account s.gCurrent = some a)
      (h : s.Effect s' (Function.update s.account s.gCurrent
        (some { a with time := { a.time with termination := s.gNumticks } })) [] [s.gCurrent])
      (hnext : s.Queued s'.gCurrent)
      (hdispatched : s'.dispatched = s.dispatched ++ [s'.gCurrent])

/-- What a timer tick does: it is charged to the current thread, and RR asks for a reschedule when
the counter has passed the quantum. -/
structure Ticked (s s' : Sched) (a : Account) : Prop where
  before : s.account s.gCurrent = some a
  account : s'.account = Function.update s.account s.gCurrent (some
    ⟨u32Succ a.numTicks, { a.time with running := u32Succ a.time.running }⟩)
  queue : s'.queue = s.queue
  ended : ∀ u, s'.Ended u → s.Ended u
  numticks : s'.gNumticks = u32Succ s.gNumticks
  kept : s.Kept s'
  nextThread : s'.nextThread = s.nextThread
  gPreemption : s'.gPreemption = s.gPreemption
  gScheduler : s'.gScheduler = s.gScheduler
  gQuantum : s'.gQuantum = s.gQuantum
  rr : s.gScheduler = .rr → s.gQuantum < u32Succ a.numTicks → s'.gNeedReschedule = true
  calm : u32Succ a.numTicks ≤ s.gQuantum → s'.gNeedReschedule = s.gNeedReschedule

variable {s s' s₁ : Sched} {t : ThreadId} {th th' : Thread}

theorem account_of_threads (hth : s.threads t = some th) : s.account t = some th.account := by
  rw [account, hth, Option.map_some]

theorem account_setThread (s : Sched) (t : ThreadId) (th : Thread) :
    (s.setThread t th).account = Function.update s.account t (some th.account) := by
  funext u
  by_cases hu : u = t
  · subst hu
    simp [account]
  · simp [account, Function.update_of_ne hu]

/-! ## Effects -/

namespace Effect

variable {accounts accounts' : ThreadId → Option Account} {F F' E E' : List ThreadId}

theorem refl (s : Sched) : s.Effect s s.account [] [] :=
  ⟨rfl, fun _ => .inl, fun _ => .inl, rfl⟩

/-- The other variables do not matter. -/
theorem congr (h : s.Effect s₁ accounts F E) (hthreads : s'.threads = s₁.threads)
    (hqueue : s'.queue = s₁.queue) (hnow : s'.gNumticks = s₁.gNumticks) :
    s.Effect s' accounts F E where
  account := by
    have haccount : s'.account = s₁.account := by
      unfold Sched.account
      rw [hthreads]
    rw [haccount, h.account]
  queued u hu := h.queued u (by rwa [Queued, hqueue] at hu)
  ended u hu := h.ended u (by rwa [Ended, hthreads] at hu)
  numticks := hnow.trans h.numticks

/-- Where no thread joins a queue, the queued threads were queued before. -/
theorem queued_nil (h : s.Effect s' accounts [] E) (ht : s'.Queued t) : s.Queued t :=
  (h.queued t ht).resolve_right List.not_mem_nil

/-- Where no thread ends, those that have ended had done so before. -/
theorem ended_nil (h : s.Effect s' accounts F []) (ht : s'.Ended t) : s.Ended t :=
  (h.ended t ht).resolve_right List.not_mem_nil

/-- One part of an operation after another. -/
theorem trans (h : s.Effect s₁ accounts F E) (h' : s₁.Effect s' accounts' F' E') :
    s.Effect s' accounts' (F ++ F') (E ++ E') where
  account := h'.account
  queued u hu := by
    rw [List.mem_append]
    rcases h'.queued u hu with hu | hu
    · exact (h.queued u hu).imp_right .inl
    · exact .inr (.inr hu)
  ended u hu := by
    rw [List.mem_append]
    rcases h'.ended u hu with hu | hu
    · exact (h.ended u hu).imp_right .inl
    · exact .inr (.inr hu)
  numticks := h'.numticks.trans h.numticks

/-- A part that leaves the accounts alone, before. -/
theorem after (h : s.Effect s₁ s.account [] []) (h' : s₁.Effect s' accounts F E) :
    s.Effect s' accounts F E := h.trans h'

/-- A thread that was queued before need not be counted among those that have joined a queue. -/
theorem of_queued (h : s.Effect s' accounts [t] E) (ht : s.Queued t) :
    s.Effect s' accounts [] E where
  account := h.account
  queued u hu := by
    rcases h.queued u hu with hu | hu
    · exact .inl hu
    · obtain rfl := List.mem_singleton.mp hu
      exact .inl ht
  ended := h.ended
  numticks := h.numticks

/-- A store into a record that does not end the thread. -/
theorem setThread (th' : Thread)
    (hstate : th'.state.Ended → ∃ th, s.threads t = some th ∧ th.state.Ended) :
    s.Effect (s.setThread t th') (Function.update s.account t (some th'.account)) [] [] where
  account := account_setThread s t th'
  queued _ := .inl
  ended u hu := by
    obtain ⟨thu, hthu, hu⟩ := hu
    by_cases hut : u = t
    · subst hut
      obtain rfl : th' = thu := by simpa using hthu
      exact .inl (hstate hu)
    · exact .inl ⟨thu, by simpa [Function.update_of_ne hut] using hthu, hu⟩
  numticks := rfl

/-- A store that leaves the account alone. -/
theorem setThread_of_account (th' : Thread) (hth : s.threads t = some th)
    (hacc : th'.account = th.account) (hstate : th'.state.Ended → th.state.Ended) :
    s.Effect (s.setThread t th') s.account [] [] := by
  have h := setThread (s := s) (t := t) th' fun hend => ⟨th, hth, hstate hend⟩
  rwa [hacc, ← account_of_threads hth, Function.update_eq_self] at h

/-- The head of a queue is taken out. -/
theorem setQueue {q : QueueId} {rest : List ThreadId} (hq : s.queue q = t :: rest) :
    s.Effect (s.setQueue q rest) s.account [] [] :=
  ⟨rfl, fun _ ⟨q', hu⟩ => .inl ⟨q', mem_of_mem_setQueue hq hu⟩, fun _ => .inl, rfl⟩

/-- A thread joins a queue. -/
theorem schedule (s : Sched) (q : QueueId) (t : ThreadId) :
    s.Effect (scheduleInto q t s) s.account [t] [] where
  account := rfl
  queued u := by
    rintro ⟨q', hu⟩
    rcases mem_scheduleInto.mp hu with hu | ⟨rfl, -⟩
    · exact .inl ⟨q', hu⟩
    · exact .inr List.mem_cons_self
  ended _ := .inl
  numticks := rfl

/-- The same at the end of a queue. -/
theorem append (s : Sched) (q : QueueId) (t : ThreadId) :
    s.Effect (threadQueueAppend q t s) s.account [t] [] where
  account := rfl
  queued u := by
    rintro ⟨q', hu⟩
    rcases (mem_enqueue (StableInsert.Splits.append _ _)).mp hu with hu | ⟨rfl, -⟩
    · exact .inl ⟨q', hu⟩
    · exact .inr List.mem_cons_self
  ended _ := .inl
  numticks := rfl

end Effect

theorem Kept.refl (s : Sched) : s.Kept s := ⟨rfl, rfl⟩

theorem Kept.trans (h : s.Kept s₁) (h' : s₁.Kept s') : s.Kept s' :=
  ⟨h'.gCurrent.trans h.gCurrent, h'.dispatched.trans h.dispatched⟩

end Sched

/-! ## The parts of operations -/

section Operations

variable {s s' : Sched} {t : ThreadId}

theorem threadMakeRunnable_effect (h : threadMakeRunnable t s = .ok s') :
    s.Effect s' s.account [t] [] ∧ s.Kept s' := by
  obtain ⟨th, hth, -, -, rfl⟩ := threadMakeRunnable_eq_ok.mp h
  have hset := Sched.Effect.setThread_of_account { th with state := .ready } hth rfl
    (by simp [ThreadState.Ended])
  have hput := Sched.Effect.schedule (s.setThread t { th with state := .ready }) .runqueue t
  rw [hset.account] at hput
  exact ⟨hset.after hput, rfl, rfl⟩

theorem threadWakeupOne_effect {q : WaitQueue} (h : threadWakeupOne q s = .ok s') :
    s.Effect s' s.account [] [] ∧ s.Kept s' := by
  simp only [threadWakeupOne, bind_eq_ok, Prod.exists, threadQueueRemoveFirst_eq_ok] at h
  obtain ⟨t, _, ⟨rest, hq, rfl⟩, h⟩ := h
  obtain ⟨heff, hkept⟩ := threadMakeRunnable_effect h
  have hqueued : s.Queued t := ⟨_, hq ▸ List.mem_cons_self⟩
  exact ⟨((Sched.Effect.setQueue hq).after heff).of_queued hqueued, hkept.gCurrent,
    hkept.dispatched⟩

/-- What every round of `thread_wakeup` and `merge_new_with_runnable` does. -/
theorem quiet_trans {s₁ : Sched} (h : s.Effect s₁ s.account [] [] ∧ s.Kept s₁)
    (h' : s₁.Effect s' s₁.account [] [] ∧ s₁.Kept s') :
    s.Effect s' s.account [] [] ∧ s.Kept s' := by
  obtain ⟨heff', hkept'⟩ := h'
  rw [h.1.account] at heff'
  exact ⟨h.1.after heff', h.2.trans hkept'⟩

theorem threadWakeup_effect {q : WaitQueue} (h : threadWakeup q s = .ok s') :
    s.Effect s' s.account [] [] ∧ s.Kept s' :=
  (threadWakeup_rule (I := fun s' => s.Effect s' s.account [] [] ∧ s.Kept s')
    (fun _ _ hI hb => quiet_trans hI (threadWakeupOne_effect hb))
    ⟨.refl s, .refl s⟩ h).1

theorem mergeNewWithRunnable_effect (h : mergeNewWithRunnable s = .ok s') :
    s.Effect s' s.account [] [] ∧ s.Kept s' := by
  refine (mergeNewWithRunnable_rule (I := fun s' => s.Effect s' s.account [] [] ∧ s.Kept s')
    (fun a b hI hb => quiet_trans hI ?_) ⟨.refl s, .refl s⟩ h).1
  obtain ⟨t, rest, th, hq, hth, -, -, rfl⟩ := mergeOne_eq_ok.mp hb
  have htake := Sched.Effect.setQueue hq
  have hset := Sched.Effect.setThread_of_account (s := a.setQueue .newqueue rest)
    { th with state := .ready } hth rfl (by simp [ThreadState.Ended])
  have hput := Sched.Effect.schedule
    ((a.setQueue .newqueue rest).setThread t { th with state := .ready }) .runqueue t
  rw [hset.account] at hput
  exact ⟨((htake.after hset).after hput).of_queued ⟨_, hq ▸ List.mem_cons_self⟩, rfl, rfl⟩

/-- The dispatch of the next thread changes no account. -/
theorem threadNextRunnable_effect (h : threadNextRunnable s = .ok (t, s')) :
    s.Effect s' s.account [] [] ∧ s.Queued t ∧ s'.gCurrent = s.gCurrent ∧
      s'.dispatched = s.dispatched ++ [t] := by
  obtain ⟨rest, th, hq, hth, -, -, rfl⟩ := threadNextRunnable_eq_ok.mp h
  have hset := Sched.Effect.setThread_of_account (s := s.setQueue .runqueue rest)
    { th with state := .running } hth rfl (by simp [ThreadState.Ended])
  have heff := (Sched.Effect.setQueue hq).after hset
  exact ⟨heff.congr rfl rfl rfl, ⟨_, hq ▸ List.mem_cons_self⟩, rfl, rfl⟩

theorem threadSchedule_effect (h : threadSchedule s = .ok s') :
    s.Effect s' s.account [] [] ∧ s.Queued s'.gCurrent ∧
      s'.dispatched = s.dispatched ++ [s'.gCurrent] := by
  simp only [threadSchedule, threadSwitchTo, bind_eq_ok, Prod.exists, pure_eq_ok] at h
  obtain ⟨t, s₁, h₁, _, -, rfl⟩ := h
  obtain ⟨heff, ht, -, hdisp⟩ := threadNextRunnable_effect h₁
  exact ⟨heff.congr rfl rfl rfl, ht, hdisp⟩

theorem threadRelinquishCpu_effect (h : threadRelinquishCpu s = .ok s') :
    ∃ a, s.account s.gCurrent = some a ∧ s.Effect s' (Function.update s.account s.gCurrent
      (some { a with numTicks := 0 })) [] [] ∧ s.Kept s' := by
  obtain ⟨th, hth, -, hrun, rfl⟩ := threadRelinquishCpu_eq_ok.mp h
  refine ⟨th.account, Sched.account_of_threads hth, ?_, rfl, rfl⟩
  exact Sched.Effect.setThread { th with numTicks := 0 } fun hend => ⟨th, hth, hend⟩

/-! ## The operations -/

/-- The CPU is given up and the next thread dispatched, with `s₁` in between. -/
theorem Sched.Booking.of_switch {a : Account} {s₁ : Sched} (ha : s.account s.gCurrent = some a)
    (h : s.Effect s₁ (Function.update s.account s.gCurrent (some { a with numTicks := 0 }))
      [s.gCurrent] []) (hkept : s.Kept s₁) (hs : threadSchedule s₁ = .ok s') : s.Booking s' := by
  obtain ⟨heff, hqueued, hdisp⟩ := threadSchedule_effect hs
  rw [h.account] at heff
  refine .switched ha (h.trans heff) ?_ (hdisp.trans (by rw [hkept.dispatched]))
  -- the thread dispatched was queued before, or it is the one that has just been queued
  exact (h.queued _ hqueued).imp_right List.mem_singleton.mp

theorem threadYield_booking (h : threadYield s = .ok s') : s.Booking s' := by
  simp only [threadYield, bind_eq_ok] at h
  obtain ⟨s₁, h₁, s₂, h₂, h⟩ := h
  obtain ⟨a, ha, heff, hkept⟩ := threadRelinquishCpu_effect h₁
  obtain ⟨heff', hkept'⟩ := threadMakeRunnable_effect h₂
  rw [hkept.gCurrent, heff.account] at heff'
  exact .of_switch ha (heff.trans heff') (hkept.trans hkept') h

theorem threadWait_booking {q : WaitQueue} (h : threadWait q s = .ok s') : s.Booking s' := by
  simp only [threadWait, bind_eq_ok] at h
  obtain ⟨_, -, s₁, h₁, h⟩ := h
  obtain ⟨a, ha, heff, hkept⟩ := threadRelinquishCpu_effect h₁
  have heff' := Sched.Effect.append s₁ (.wait q) s₁.gCurrent
  rw [hkept.gCurrent, heff.account] at heff'
  rw [hkept.gCurrent] at h
  exact .of_switch ha (heff.trans heff') ⟨hkept.gCurrent, hkept.dispatched⟩ h

theorem threadExitFinish_booking {code : ℤ} (h : threadExitFinish code s = .ok s') :
    s.Booking s' := by
  simp only [threadExitFinish, bind_eq_ok, Sched.deref_eq_ok, Sched.derefProcess_eq_ok] at h
  obtain ⟨th, ⟨hth, -⟩, p, ⟨_, hth', -, -, rfl⟩, h⟩ := h
  obtain rfl := Option.some.inj (hth.symm.trans hth')
  obtain ⟨th', hth'⟩ : ∃ th' : Thread, th' = { th with
      exitcode := code
      state := .exited
      process := { th.process with time := { th.process.time with
        termination := s.gNumticks } } } := ⟨_, rfl⟩
  rw [← hth'] at h
  have ha := Sched.account_of_threads hth
  have hset : s.Effect (s.setThread s.gCurrent th') (Function.update s.account s.gCurrent
      (some { th.account with time := { th.account.time with termination := s.gNumticks } }))
      [] [s.gCurrent] := by
    refine ⟨?_, fun _ => .inl, fun u hended => ?_, rfl⟩
    · rw [Sched.account_setThread, hth']
      rfl
    · obtain ⟨thu, hthu, hu⟩ := hended
      -- only the thread that exits has ended now
      by_cases hut : u = s.gCurrent
      · exact .inr (by simp [hut])
      · exact .inl ⟨thu, by simpa [Function.update_of_ne hut] using hthu, hu⟩
  -- the joiners are woken before the next thread is dispatched, if there can be any
  obtain ⟨s₁, ⟨heff, hkept⟩, h⟩ : ∃ s₁, ((s.setThread s.gCurrent th').Effect s₁
      (s.setThread s.gCurrent th').account [] [] ∧ (s.setThread s.gCurrent th').Kept s₁) ∧
      threadSchedule s₁ = .ok s' := by
    split at h
    · obtain ⟨s₁, h₁, h⟩ := bind_eq_ok.mp h
      exact ⟨s₁, threadWakeup_effect h₁, h⟩
    · exact ⟨_, ⟨.refl _, .refl _⟩, h⟩
  rw [hset.account] at heff
  obtain ⟨heff', hqueued, hdisp⟩ := threadSchedule_effect h
  rw [heff.account] at heff'
  have hall := (hset.trans heff).trans heff'
  refine .exited ha hall ?_ (hdisp.trans (by rw [hkept.dispatched]; rfl))
  exact (hset.trans heff).queued_nil hqueued

theorem threadWakeup_booking {q : WaitQueue} (h : threadWakeup q s = .ok s') : s.Booking s' :=
  .quiet (threadWakeup_effect h).1 (threadWakeup_effect h).2

theorem threadWakeupOne_booking {q : WaitQueue} (h : threadWakeupOne q s = .ok s') :
    s.Booking s' :=
  .quiet (threadWakeupOne_effect h).1 (threadWakeupOne_effect h).2

theorem mergeNewWithRunnable_booking (h : mergeNewWithRunnable s = .ok s') : s.Booking s' :=
  .quiet (mergeNewWithRunnable_effect h).1 (mergeNewWithRunnable_effect h).2

theorem memFree_booking {o : Object} (h : memFree o s = .ok s') : s.Booking s' := by
  obtain ⟨⟨hacc, hqueued, hended, hnow⟩, hcur, hdisp⟩ := threadWakeup_effect h
  exact .quiet ⟨hacc, hqueued, hended, hnow⟩ ⟨hcur, hdisp⟩

theorem memFreeFrame_booking {o : Object} (h : memFreeFrame o s = .ok s') : s.Booking s' := by
  obtain ⟨⟨hacc, hqueued, hended, hnow⟩, hcur, hdisp⟩ := threadWakeup_effect h
  exact .quiet ⟨hacc, hqueued, hended, hnow⟩ ⟨hcur, hdisp⟩

/-- A store into a record that leaves its account and its state alone. -/
theorem Sched.Booking.setThread {th th' : Thread} (hth : s.threads t = some th)
    (hacc : th'.account = th.account) (hstate : th'.state = th.state) :
    s.Booking (s.setThread t th') :=
  .quiet (.setThread_of_account th' hth hacc (hstate ▸ id)) ⟨rfl, rfl⟩

theorem genPid_booking : s.Booking (genPid s).2 :=
  .quiet ((Sched.Effect.refl s).congr rfl rfl rfl) ⟨rfl, rfl⟩

/-- A store into the process of a new thread that leaves its times alone. -/
theorem storeProcess_booking {f : Process → Process} (hf : ∀ p, (f p).time = p.time)
    (h : storeProcess t f s = .ok s') : s.Booking s' := by
  obtain ⟨th, hth, -, -, rfl⟩ := storeProcess_eq_ok h
  exact .setThread hth (congrArg (Account.mk th.numTicks) (hf th.process)) rfl

theorem threadCreatePid_booking {t : ThreadId} {pid : ℕ} (h : threadCreatePid t pid s = .ok s') :
    s.Booking s' :=
  storeProcess_booking (f := fun p => { p with pid }) (fun _ => rfl) h

theorem threadCreatePriority_booking {t : ThreadId} (h : threadCreatePriority t s = .ok s') :
    s.Booking s' :=
  storeProcess_booking (f := fun p => { p with priority := defaultPriority }) (fun _ => rfl) h

/-- The record of a new thread, which joins a queue. -/
theorem allocThread_effect (s : Sched) (th : Thread) (q : QueueId) (hstate : ¬th.state.Ended) :
    s.Effect (scheduleInto q s.nextThread (allocThread th s).2)
      (Function.update s.account s.nextThread (some th.account)) [s.nextThread] [] := by
  have hset := Sched.Effect.setThread (s := s) (t := s.nextThread) th
    fun hend => absurd hend hstate
  have halloc : s.Effect (allocThread th s).2
      (Function.update s.account s.nextThread (some th.account)) [] [] := hset.congr rfl rfl rfl
  have hput := Sched.Effect.schedule (allocThread th s).2 q s.nextThread
  rw [halloc.account] at hput
  exact halloc.trans hput

theorem threadCreate_booking {mode : ThreadMode} {arrival : ℕ}
    (h : threadCreate mode arrival s = .ok (t, s')) : s.Booking s' := by
  obtain ⟨rfl, rfl⟩ := threadCreate_eq_ok h
  refine .opened ?_ (allocThread_effect s _ .runqueue (by simp [ThreadState.Ended])) ⟨rfl, rfl⟩
  cases mode <;> rfl

theorem threadCreateFromJob_effect {process : Process} {mode : ThreadMode}
    (h : threadCreateFromJob process mode s = .ok (t, s')) :
    s.Effect s' (Function.update s.account s.nextThread
      (some ⟨0, { process.time with arrival := s.gNumticks }⟩)) [s.nextThread] [] ∧ s.Kept s' := by
  obtain ⟨rfl, rfl⟩ := threadCreateFromJob_eq_ok h
  obtain ⟨h₁, h₂, h₃, h₄⟩ := allocThread_effect s
    { newThread mode
      { process with time := { process.time with arrival := s.gNumticks } } s with state := .new }
    .newqueue (by simp [ThreadState.Ended])
  refine ⟨⟨h₁.trans ?_, h₂, h₃, h₄⟩, rfl, rfl⟩
  cases mode <;> rfl

theorem threadCreateFromJob_booking {process : Process} {mode : ThreadMode}
    (h : threadCreateFromJob process mode s = .ok (t, s')) : s.Booking s' :=
  .opened rfl (threadCreateFromJob_effect h).1 (threadCreateFromJob_effect h).2

theorem firstResponse_booking (h : firstResponse s = .ok s') : s.Booking s' := by
  obtain ⟨th, hth, rfl⟩ := firstResponse_eq_ok h
  exact .responded (Sched.account_of_threads hth) (Sched.Effect.setThread { th with
    process := { th.process with time := { th.process.time with
      firstResponse := s.gNumticks } } } fun hend => ⟨th, hth, hend⟩) ⟨rfl, rfl⟩

/-! ## Interrupts -/

theorem timerProcessTick_ticked (h : timerProcessTick s = .ok s') : ∃ a, s.Ticked s' a := by
  simp only [timerProcessTick, bind_eq_ok, Sched.deref_eq_ok, Sched.derefProcess_eq_ok] at h
  obtain ⟨th, ⟨hth, -⟩, p, ⟨_, hth', -, -, rfl⟩, h⟩ := h
  obtain rfl := Option.some.inj (hth.symm.trans hth')
  obtain ⟨th', hth'⟩ : ∃ th' : Thread, th' = { th with
      numTicks := u32Succ th.numTicks
      process := { th.process with time := { th.process.time with
        running := u32Succ th.process.time.running } } } := ⟨_, rfl⟩
  rw [← hth'] at h
  have hset := Sched.Effect.setThread
    (s := { s with gNumticks := u32Succ s.gNumticks }) (t := s.gCurrent) th'
    fun hend => ⟨th, hth, by simpa [hth'] using hend⟩
  have hacc := hset.account
  have hacc' : th'.account = ⟨u32Succ th.account.numTicks, { th.account.time with
      running := u32Succ th.account.time.running }⟩ := by rw [hth']; rfl
  rw [hacc'] at hacc
  have hended' : ∀ u, ({ s with gNumticks := u32Succ s.gNumticks }.setThread s.gCurrent
      th').Ended u → s.Ended u := fun u => hset.ended_nil
  have ha := Sched.account_of_threads hth
  refine ⟨th.account, ?_⟩
  split at h
  next hrr =>
    simp only [rrScheduler, bind_eq_ok, Sched.deref_eq_ok, pure_eq_ok] at h
    obtain ⟨th'', ⟨hth'', -⟩, rfl⟩ := h
    -- `RR_scheduler` reads the counter behind the increment
    obtain rfl : th' = th'' := by simpa using hth''
    have hticks : th'.numTicks = u32Succ th.account.numTicks := by rw [hth']; rfl
    -- RR asks for a reschedule if the counter has passed the quantum
    split
    next hpast =>
      refine ⟨ha, hacc, rfl, hended', rfl, ⟨rfl, rfl⟩, rfl, rfl, rfl, rfl, fun _ _ => rfl,
        fun hle => ?_⟩
      exact absurd hpast (show ¬th'.numTicks > s.gQuantum by omega)
    next hpast =>
      refine ⟨ha, hacc, rfl, hended', rfl, ⟨rfl, rfl⟩, rfl, rfl, rfl, rfl, fun _ hlt => ?_,
        fun _ => rfl⟩
      exact absurd (show th'.numTicks > s.gQuantum by omega) hpast
  next hrr =>
    obtain rfl := pure_eq_ok.mp h
    exact ⟨ha, hacc, rfl, hended', rfl, ⟨rfl, rfl⟩, rfl, rfl, rfl, rfl,
      fun hrr' => absurd hrr' hrr, fun _ => rfl⟩

/-- An interrupt returns to the thread it has interrupted, or another one is dispatched; the latter
if preemption is on and a reschedule has been asked for. -/
theorem intHandleReturn_booking (h : intHandleReturn s = .ok s') : s.Booking s' ∧
    (s.gPreemption = true → s.gNeedReschedule = true →
      s'.dispatched = s.dispatched ++ [s'.gCurrent]) := by
  unfold intHandleReturn at h
  split at h
  next hp =>
    obtain rfl := pure_eq_ok.mp h
    exact ⟨.quiet (.refl _) (.refl _), fun hp' => absurd hp' (by simp [hp])⟩
  next hp =>
    split at h
    next hn =>
      obtain rfl := pure_eq_ok.mp h
      exact ⟨.quiet (.refl _) (.refl _), fun _ hn' => absurd hn' (by simp [hn])⟩
    next hn =>
      simp only [bind_eq_ok, Prod.exists, pure_eq_ok] at h
      obtain ⟨s₁, h₁, s₂, h₂, t, s₃, h₃, rfl⟩ := h
      obtain ⟨a, ha, heff, hkept⟩ := threadRelinquishCpu_effect h₁
      obtain ⟨heff', hkept'⟩ := threadMakeRunnable_effect h₂
      rw [hkept.gCurrent, heff.account] at heff'
      obtain ⟨heff'', hqueued, -, hdisp⟩ := threadNextRunnable_effect h₃
      have hall := heff.trans heff'
      rw [hall.account] at heff''
      have hdisp' : s₃.dispatched = s.dispatched ++ [t] := by
        rw [hdisp, hkept'.dispatched, hkept.dispatched]
      obtain ⟨hacc, hjoined, hended, hnow⟩ := hall.trans heff''
      refine ⟨.switched ha ⟨hacc, hjoined, hended, hnow⟩ ?_ hdisp', fun _ _ => hdisp'⟩
      exact (hall.queued _ hqueued).imp_right List.mem_singleton.mp

/-- What the handler of an interrupt does before its return can be taken together with it, if it
leaves the accounts alone. -/
theorem Sched.Booking.after_quiet {s₁ : Sched} (h : s.Effect s₁ s.account [] []) (hkept : s.Kept s₁)
    (h' : s₁.Booking s') (hold : s₁.nextThread = s.nextThread) : s.Booking s' := by
  cases h' with
  | quiet heff hkept' => exact .quiet (h.after (h.account ▸ heff)) (hkept.trans hkept')
  | opened ha heff hkept' =>
    rw [h.account, hold] at heff
    exact .opened ha (h.after heff) (hkept.trans hkept')
  | responded ha heff hkept' =>
    rw [h.account, hkept.gCurrent] at ha
    rw [h.account, hkept.gCurrent, h.numticks] at heff
    exact .responded ha (h.after heff) (hkept.trans hkept')
  | switched ha heff hnext hdisp =>
    rw [h.account, hkept.gCurrent] at ha
    rw [h.account, hkept.gCurrent] at heff
    refine .switched ha (h.after heff) ?_ (hdisp.trans (by rw [hkept.dispatched]))
    -- the next thread was queued before the handler, since that has queued nobody
    rcases hnext with hq | hq
    · exact .inl (h.queued_nil hq)
    · exact .inr (hq.trans hkept.gCurrent)
  | exited ha heff hnext hdisp =>
    rw [h.account, hkept.gCurrent] at ha
    rw [h.account, hkept.gCurrent, h.numticks] at heff
    refine .exited ha (h.after heff) ?_ (hdisp.trans (by rw [hkept.dispatched]))
    exact h.queued_nil hnext

end Operations

/-! ## The clock and the arrival times -/

namespace Sched

variable {s s' : Sched} {a : Account} {t : ThreadId}

/-- `thread->process->time.arrival`. -/
def arrival (s : Sched) (t : ThreadId) : Option ℕ := (s.account t).map fun a => a.time.arrival

/-- A store into the account of the current thread that keeps its arrival time. -/
theorem arrival_update {b : Account} (ha : s.account s.gCurrent = some a)
    (hb : b.time.arrival = a.time.arrival)
    (h : s'.account = Function.update s.account s.gCurrent (some b)) :
    s'.arrival t = s.arrival t := by
  unfold arrival
  rw [h]
  by_cases ht : t = s.gCurrent
  · subst ht
    rw [Function.update_self, ha, Option.map_some, Option.map_some, hb]
  · rw [Function.update_of_ne ht]

theorem Booking.numticks (h : s.Booking s') : s'.gNumticks = s.gNumticks := by
  cases h with
  | quiet heff hkept | opened ha heff hkept | responded ha heff hkept => exact heff.numticks
  | switched ha heff hnext hdisp | exited ha heff hnext hdisp => exact heff.numticks

/-- The arrival time of a thread is stored when the thread is made, and not again. -/
theorem Booking.arrival (h : s.Booking s') (ht : t ≠ s.nextThread) :
    s'.arrival t = s.arrival t := by
  cases h with
  | quiet heff hkept => rw [Sched.arrival, Sched.arrival, heff.account]
  | opened ha heff hkept =>
    rw [Sched.arrival, Sched.arrival, heff.account, Function.update_of_ne ht]
  | responded ha heff hkept => exact arrival_update ha (by rfl) heff.account
  | switched ha heff hnext hdisp => exact arrival_update ha (by rfl) heff.account
  | exited ha heff hnext hdisp => exact arrival_update ha (by rfl) heff.account

/-- A thread that has an account keeps one, whatever account is stored. -/
theorem isSome_update {u : ThreadId} (ht : (s.account t).isSome = true)
    (h : s'.account = Function.update s.account u (some a)) : (s'.account t).isSome = true := by
  by_cases htu : t = u
  · subst htu
    rw [h, Function.update_self]
    rfl
  · rwa [h, Function.update_of_ne htu]

theorem Booking.isSome (h : s.Booking s') (ht : (s.account t).isSome = true) :
    (s'.account t).isSome = true := by
  cases h with
  | quiet heff hkept => rwa [heff.account]
  | opened ha heff hkept | responded ha heff hkept => exact isSome_update ht heff.account
  | switched ha heff hnext hdisp | exited ha heff hnext hdisp =>
    exact isSome_update ht heff.account

/-- `thread->process->time`. -/
def time (s : Sched) (t : ThreadId) : TimeStat := ((s.account t).map Account.time).getD {}

theorem time_of_account (ha : s.account t = some a) : s.time t = a.time := by
  rw [time, ha, Option.map_some, Option.getD_some]

/-- A store into the account of one thread. -/
theorem time_update {u : ThreadId} (h : s'.account = Function.update s.account u (some a)) :
    s'.time t = if t = u then a.time else s.time t := by
  by_cases ht : t = u
  · subst ht
    rw [if_pos rfl, time_of_account (a := a) (by rw [h, Function.update_self])]
  · rw [if_neg ht, time, time, h, Function.update_of_ne ht]

/-- What a booking may do to the times of a thread with a record. -/
inductive TimeBooking (s : Sched) (t : ThreadId) (s' : Sched) : Prop
  | same (h : s'.time t = s.time t) (hended : s'.Ended t → s.Ended t)
  | responded (ht : t = s.gCurrent)
      (h : s'.time t = { s.time t with firstResponse := s.gNumticks })
      (hended : s'.Ended t → s.Ended t)
  | exited (ht : t = s.gCurrent) (h : s'.time t = { s.time t with termination := s.gNumticks })

theorem Booking.time (h : s.Booking s') (ht : t ≠ s.nextThread) : s.TimeBooking t s' := by
  cases h with
  | quiet heff hkept =>
    exact .same (by rw [Sched.time, Sched.time, heff.account])
      heff.ended_nil
  | opened ha heff hkept =>
    exact .same (by rw [time_update heff.account, if_neg ht])
      heff.ended_nil
  | responded ha heff hkept =>
    have htime := time_update (t := t) heff.account
    by_cases hcur : t = s.gCurrent
    · subst hcur
      exact .responded rfl (by rw [htime, if_pos rfl, time_of_account ha]) heff.ended_nil
    · exact .same (by rw [htime, if_neg hcur]) heff.ended_nil
  | switched ha heff hnext hdisp =>
    have htime := time_update (t := t) heff.account
    refine .same ?_ heff.ended_nil
    by_cases hcur : t = s.gCurrent
    · subst hcur
      rw [htime, if_pos rfl, time_of_account ha]
    · rw [htime, if_neg hcur]
  | exited ha heff hnext hdisp =>
    have htime := time_update (t := t) heff.account
    by_cases hcur : t = s.gCurrent
    · subst hcur
      exact .exited rfl (by rw [htime, if_pos rfl, time_of_account ha])
    · refine .same (by rw [htime, if_neg hcur]) fun hu => ?_
      exact (heff.ended t hu).resolve_right fun hmem => hcur (List.mem_singleton.mp hmem)

theorem Ticked.time (h : s.Ticked s' a) : s'.time t =
    if t = s.gCurrent then { s.time t with running := u32Succ (s.time t).running }
    else s.time t := by
  rw [time_update h.account]
  by_cases ht : t = s.gCurrent
  · subst ht
    rw [if_pos rfl, if_pos rfl, time_of_account h.before]
  · rw [if_neg ht, if_neg ht]

theorem Ticked.arrival (h : s.Ticked s' a) : s'.arrival t = s.arrival t :=
  arrival_update h.before (by rfl) h.account

end Sched

/-! ## Time slices -/

namespace Sched

variable {s s' : Sched} {a : Account}

/-- `g_current->num_ticks`. -/
def ticks (s : Sched) : ℕ := ((s.account s.gCurrent).map Account.numTicks).getD 0

/-- The counters of the threads in queues are zero. -/
def Rested (s : Sched) : Prop := ∀ t a, s.Queued t → s.account t = some a → a.numTicks = 0

/-- A thread at rest has no ticks when it becomes the current one. -/
theorem ticks_eq_zero (h : ∀ a, s.account s.gCurrent = some a → a.numTicks = 0) :
    s.ticks = 0 := by
  unfold ticks
  cases ha : s.account s.gCurrent with
  | none => rfl
  | some a => exact h a ha

theorem ticks_eq (ha : s.account s.gCurrent = some a) : s.ticks = a.numTicks := by
  simp [ticks, ha]

/-- Where the account of one thread is stored, with a counter that is zero if the thread is
queued. -/
theorem Rested.of_effect {t : ThreadId} {F E : List ThreadId} (h : s.Rested)
    (heff : s.Effect s' (Function.update s.account t (some a)) F E)
    (ht : s'.Queued t → a.numTicks = 0) (hF : ∀ u ∈ F, u = t) : s'.Rested := by
  intro u b hu hb
  rw [heff.account] at hb
  by_cases hut : u = t
  · subst hut
    rw [Function.update_self, Option.some.injEq] at hb
    exact hb ▸ ht hu
  · rw [Function.update_of_ne hut] at hb
    -- whoever has joined a queue is `t`
    have hold : s.Queued u := (heff.queued u hu).resolve_right fun hmem => hut (hF u hmem)
    exact h u b hold hb

/-- Whoever joins a queue has a zero on the counter. -/
theorem Booking.rested (h : s.Booking s') (hrest : s.Rested) : s'.Rested := by
  cases h with
  | quiet heff hkept =>
    intro u b hu hb
    rw [heff.account] at hb
    exact hrest u b (heff.queued_nil hu) hb
  | opened ha heff hkept => exact hrest.of_effect heff (fun _ => ha) (by simp)
  | @responded a ha heff hkept =>
    refine hrest.of_effect heff (fun hq => ?_) (by simp)
    exact hrest _ a (heff.queued_nil hq) ha
  | switched ha heff hnext hdisp => exact hrest.of_effect heff (fun _ => rfl) (by simp)
  | @exited a ha heff hnext hdisp =>
    refine hrest.of_effect heff (fun hq => ?_) (by simp)
    exact hrest _ a (heff.queued_nil hq) ha

/-- A thread that is dispatched has no ticks: it comes from a queue, or it is the current one with
its counter cleared. -/
theorem ticks_dispatched {F E : List ThreadId} (hrest : s.Rested)
    (heff : s.Effect s' (Function.update s.account s.gCurrent (some a)) F E)
    (hsame : s'.gCurrent = s.gCurrent → a.numTicks = 0)
    (hother : s'.gCurrent ≠ s.gCurrent → s.Queued s'.gCurrent) : s'.ticks = 0 := by
  refine ticks_eq_zero fun b hb => ?_
  rw [heff.account] at hb
  by_cases hcur : s'.gCurrent = s.gCurrent
  · rw [hcur, Function.update_self, Option.some.injEq] at hb
    exact hb ▸ hsame hcur
  · rw [Function.update_of_ne hcur] at hb
    exact hrest _ _ (hother hcur) hb

/-- The current thread goes on with the ticks it has, or a thread is dispatched, with none. -/
theorem Booking.ticks (h : s.Booking s') (hrest : s.Rested) (hcur : s.gCurrent ≠ s.nextThread) :
    s.Kept s' ∧ s'.ticks = s.ticks ∨
      s'.dispatched = s.dispatched ++ [s'.gCurrent] ∧ s'.ticks = 0 := by
  cases h with
  | quiet heff hkept =>
    exact .inl ⟨hkept, by rw [Sched.ticks, Sched.ticks, hkept.gCurrent, heff.account]⟩
  | opened ha heff hkept =>
    refine .inl ⟨hkept, ?_⟩
    rw [Sched.ticks, Sched.ticks, hkept.gCurrent, heff.account, Function.update_of_ne hcur]
  | responded ha heff hkept =>
    refine .inl ⟨hkept, ?_⟩
    rw [ticks_eq ha, Sched.ticks, hkept.gCurrent, heff.account, Function.update_self]
    rfl
  | @switched a ha heff hnext hdisp =>
    exact .inr ⟨hdisp, ticks_dispatched hrest heff (fun _ => rfl) hnext.resolve_right⟩
  | @exited a ha heff hnext hdisp =>
    -- the thread that exits is in no queue with a tick on its counter
    exact .inr ⟨hdisp, ticks_dispatched hrest heff (fun hsame => hrest _ a (hsame ▸ hnext) ha)
      fun _ => hnext⟩

/-- A tick is charged to a thread in no queue. -/
theorem Ticked.rested (h : s.Ticked s' a) (hrest : s.Rested) (hcur : ¬s.Queued s.gCurrent) :
    s'.Rested := by
  intro u b hu hb
  have hold : s.Queued u := by
    obtain ⟨q, hq⟩ := hu
    exact ⟨q, by rwa [h.queue] at hq⟩
  have hne : u ≠ s.gCurrent := by
    rintro rfl
    exact hcur hold
  rw [h.account, Function.update_of_ne hne] at hb
  exact hrest u b hold hb

theorem Ticked.ticks (h : s.Ticked s' a) : s'.ticks = u32Succ s.ticks := by
  rw [ticks_eq h.before, Sched.ticks, h.kept.gCurrent, h.account, Function.update_self]
  rfl

end Sched

end GeekOS
