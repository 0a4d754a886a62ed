import GeekOS.Thread.Placement

/-!
# Why an operation fails

For each operation of the thread module, what a `Fault` says about the state in which the
operation was started: an assertion that does not hold there, or a thread on the CPU or in a
queue whose memory is not allocated (`Sched.Dangling`).
-/

namespace GeekOS

open Result

namespace Sched

variable (s : Sched)

/-- The record of the thread and its process are allocated. -/
def Allocated (t : ThreadId) : Prop :=
  ∃ th, s.threads t = some th ∧ .thread t ∉ s.freed ∧ .process t ∉ s.freed

/-- The current thread, or one in a queue, is not allocated. -/
def Dangling : Prop :=
  ∃ t, (t = s.gCurrent ∨ ∃ q, t ∈ s.queue q) ∧ ¬s.Allocated t

end Sched

/-- The fault is an access to memory that is not allocated. -/
def Fault.IsInvalidAccess (f : Fault) : Prop := ∃ o, f = .invalidAccess o

variable {s s' : Sched} {f : Fault} {t : ThreadId}

theorem allocated_setThread {u : ThreadId} {th : Thread} (ht : s.Allocated t) :
    (s.setThread t th).Allocated u ↔ s.Allocated u := by
  by_cases hu : u = t
  · subst hu
    have ⟨_, _, hf, hp⟩ := ht
    exact iff_of_true ⟨th, by simp, hf, hp⟩ ht
  · simp [Sched.Allocated, Function.update_of_ne hu]

theorem deref_error (h : s.deref t = .error f) : ¬s.Allocated t ∧ f.IsInvalidAccess := by
  obtain ⟨hno, rfl⟩ := Sched.deref_eq_error.mp h
  refine ⟨?_, _, rfl⟩
  rintro ⟨th, hth, hf, -⟩
  simp_all

theorem derefProcess_error (h : s.derefProcess t = .error f) :
    ¬s.Allocated t ∧ f.IsInvalidAccess := by
  obtain ⟨hno, ho⟩ := Sched.derefProcess_eq_error h
  refine ⟨?_, ho⟩
  rintro ⟨th, hth, hf, hp⟩
  simp_all

theorem narrator_error (h : narrator t s = .error f) : ¬s.Allocated t ∧ f.IsInvalidAccess := by
  simp only [narrator, bind_eq_error, pure_ne_error, and_false, exists_false, or_false] at h
  exact derefProcess_error h

theorem threadMakeRunnable_error (h : threadMakeRunnable t s = .error f) :
    ¬s.Allocated t ∧ f.IsInvalidAccess := by
  simp only [threadMakeRunnable, bind_eq_error, pure_ne_error, and_false, exists_false,
    or_false] at h
  rcases h with h | ⟨th, hth, h⟩
  · exact deref_error h
  · obtain ⟨hno, hf⟩ := narrator_error h
    exact ⟨fun ha => hno ((allocated_setThread ha).mpr ha), hf⟩

theorem threadQueueRemoveFirst_error {q : QueueId} (h : threadQueueRemoveFirst q s = .error f) :
    s.queue q = [] ∧ f = .assertion (.listHead q) := by
  unfold threadQueueRemoveFirst at h
  split at h
  next hq => exact ⟨hq, by simpa using h.symm⟩
  · simp at h

theorem threadNextRunnable_error (h : threadNextRunnable s = .error f) :
    s.queue .runqueue = [] ∧ f = .assertion (.listHead .runqueue) ∨
      s.Dangling ∧ f.IsInvalidAccess := by
  simp only [threadNextRunnable, bind_eq_error, pure_ne_error, and_false, exists_false,
    or_false, Prod.exists, threadQueueRemoveFirst_eq_ok] at h
  rcases h with h | ⟨t, _, ⟨rest, hq, rfl⟩, h⟩
  · exact .inl (threadQueueRemoveFirst_error h)
  · -- the thread was the head of the run queue when the function was called
    have hplace : t = s.gCurrent ∨ ∃ q, t ∈ s.queue q := .inr ⟨_, hq ▸ List.mem_cons_self⟩
    rcases h with h | ⟨th, hth, h⟩
    · obtain ⟨hno, hf⟩ := deref_error h
      exact .inr ⟨⟨t, hplace, hno⟩, hf⟩
    · obtain ⟨hno, hf⟩ := narrator_error h
      exact .inr ⟨⟨t, hplace, fun ha => hno ((allocated_setThread (s := s.setQueue _ rest) ha).mpr
        ha)⟩, hf⟩

theorem threadSwitchTo_error (h : threadSwitchTo t s = .error f) :
    s.Dangling ∧ f.IsInvalidAccess := by
  simp only [threadSwitchTo, bind_eq_error, pure_ne_error, and_false, exists_false, or_false] at h
  obtain ⟨hno, hf⟩ := deref_error h
  exact ⟨⟨_, .inl rfl, hno⟩, hf⟩

/-- Taking the head of a queue out makes no thread dangling. -/
theorem dangling_of_setQueue {q : QueueId} {rest : List ThreadId} (hq : s.queue q = t :: rest)
    (h : (s.setQueue q rest).Dangling) : s.Dangling := by
  obtain ⟨u, hu, hno⟩ := h
  exact ⟨u, hu.imp_right fun ⟨q', hq'⟩ => ⟨q', mem_of_mem_setQueue hq hq'⟩, hno⟩

/-- Nor does a store into an allocated record. -/
theorem dangling_of_setThread {th : Thread} (ht : s.Allocated t)
    (h : (s.setThread t th).Dangling) : s.Dangling := by
  obtain ⟨u, hu, hno⟩ := h
  exact ⟨u, hu, fun ha => hno ((allocated_setThread ht).mpr ha)⟩

/-- Nor does the insertion of an allocated thread. -/
theorem dangling_of_enqueue {q : QueueId} {r : List ThreadId}
    (hr : StableInsert.Splits (s.queue q) t r) (ht : s.Allocated t)
    (h : (s.enqueue q r t).Dangling) : s.Dangling := by
  obtain ⟨u, hu, hno⟩ := h
  rcases hu with hu | ⟨q', hu⟩
  · exact ⟨u, .inl hu, hno⟩
  · rcases (mem_enqueue hr).mp hu with hu | ⟨rfl, -⟩
    · exact ⟨u, .inr ⟨q', hu⟩, hno⟩
    · exact absurd ht hno

theorem dangling_of_schedule {q : QueueId} {th : Thread} (ht : s.Allocated t)
    (h : (scheduleInto q t (s.setThread t th)).Dangling) : s.Dangling :=
  dangling_of_setThread ht
    (dangling_of_enqueue (splits_scheduler _ _ _) ((allocated_setThread ht).mpr ht) h)

theorem threadSchedule_error (h : threadSchedule s = .error f) :
    s.queue .runqueue = [] ∧ f = .assertion (.listHead .runqueue) ∨
      s.Dangling ∧ f.IsInvalidAccess := by
  simp only [threadSchedule, bind_eq_error, Prod.exists, threadNextRunnable_eq_ok] at h
  rcases h with h | ⟨t, _, ⟨rest, th, hq, hth, hf, hp, rfl⟩, h⟩
  · exact threadNextRunnable_error h
  · obtain ⟨⟨u, hu, hno⟩, hf'⟩ := threadSwitchTo_error h
    refine .inr ⟨dangling_of_setQueue hq (dangling_of_setThread ⟨th, hth, hf, hp⟩ ⟨u, hu, hno⟩), hf'⟩

theorem threadRelinquishCpu_error (h : threadRelinquishCpu s = .error f) :
    (f = .assertion .stateRunning ∧
        ∃ th, s.threads s.gCurrent = some th ∧ th.state ≠ .running) ∨
      s.Dangling ∧ f.IsInvalidAccess := by
  simp only [threadRelinquishCpu, bind_eq_error, pure_ne_error, and_false, exists_false,
    or_false, require_eq_error] at h
  rcases h with h | ⟨th, hth, hstate, rfl⟩
  · obtain ⟨hno, hf⟩ := deref_error h
    exact .inr ⟨⟨_, .inl rfl, hno⟩, hf⟩
  · exact .inl ⟨rfl, th, (Sched.deref_eq_ok.mp hth).1, hstate⟩

/-- Giving up the CPU changes nothing that matters for the place of a thread. -/
theorem dangling_of_relinquish (h : threadRelinquishCpu s = .ok s') (hd : s'.Dangling) :
    s.Dangling := by
  obtain ⟨th, hth, hf, -, rfl⟩ := threadRelinquishCpu_eq_ok.mp h
  by_cases hp : .process s.gCurrent ∈ s.freed
  · exact ⟨_, .inl rfl, fun ⟨_, _, _, hno⟩ => hno hp⟩
  · exact dangling_of_setThread ⟨th, hth, hf, hp⟩ hd

/-- Behind `thread_make_runnable` there is a thread to run. -/
theorem threadMakeRunnable_ne_nil (h : threadMakeRunnable t s = .ok s') :
    s'.queue .runqueue ≠ [] := by
  obtain ⟨th, -, -, -, rfl⟩ := threadMakeRunnable_eq_ok.mp h
  exact List.ne_nil_of_mem (mem_scheduleInto.mpr (.inr ⟨rfl, rfl⟩))

/-- Nor is a thread dangling there that was not. -/
theorem dangling_of_threadMakeRunnable (h : threadMakeRunnable t s = .ok s') (hd : s'.Dangling) :
    s.Dangling := by
  obtain ⟨th, hth, hf, hp, rfl⟩ := threadMakeRunnable_eq_ok.mp h
  exact dangling_of_schedule ⟨th, hth, hf, hp⟩ hd

theorem threadYield_error (h : threadYield s = .error f) :
    f = .assertion .stateRunning ∨ s.Dangling ∧ f.IsInvalidAccess := by
  simp only [threadYield, bind_eq_error] at h
  rcases h with h | ⟨s₁, h₁, h | ⟨s₂, h₂, h⟩⟩
  · exact (threadRelinquishCpu_error h).imp_left And.left
  · obtain ⟨hno, hf⟩ := threadMakeRunnable_error h
    exact .inr ⟨dangling_of_relinquish h₁ ⟨_, .inl rfl, hno⟩, hf⟩
  · rcases threadSchedule_error h with ⟨hempty, -⟩ | ⟨hd, hf⟩
    · -- the thread itself has just joined the run queue
      exact absurd hempty (threadMakeRunnable_ne_nil h₂)
    · exact .inr ⟨dangling_of_relinquish h₁ (dangling_of_threadMakeRunnable h₂ hd), hf⟩

theorem threadWait_error {q : WaitQueue} (h : threadWait q s = .error f) :
    s.queue .runqueue = [] ∧ f = .assertion (.listHead .runqueue) ∨ f = .assertion .stateRunning ∨
      s.Dangling ∧ f.IsInvalidAccess := by
  simp only [threadWait, bind_eq_error] at h
  rcases h with h | ⟨_, hnarr, h | ⟨s₁, h₁, h⟩⟩
  · obtain ⟨hno, hf⟩ := narrator_error h
    exact .inr (.inr ⟨⟨_, .inl rfl, hno⟩, hf⟩)
  · exact .inr ((threadRelinquishCpu_error h).imp_left And.left)
  · obtain ⟨th, hth, hf, -, rfl⟩ := threadRelinquishCpu_eq_ok.mp h₁
    -- `narrator` has read the record, so the rest finds it allocated
    have halloc : s.Allocated s.gCurrent := narrator_eq_ok.mp hnarr
    rcases threadSchedule_error h with ⟨hempty, rfl⟩ | ⟨hd, hf'⟩
    · exact .inl ⟨by simpa [threadQueueAppend] using hempty, rfl⟩
    · refine .inr (.inr ⟨dangling_of_setThread halloc (dangling_of_enqueue
        (StableInsert.Splits.append _ _) ((allocated_setThread halloc).mpr halloc) hd), hf'⟩)

theorem threadPark_error {q : WaitQueue} (h : threadPark q s = .error f) :
    s.queue .runqueue = [] ∧ f = .assertion (.listHead .runqueue) ∨ f = .assertion .stateRunning ∨
      f = .assertion .preemption ∨ s.Dangling ∧ f.IsInvalidAccess := by
  simp only [threadPark, bind_eq_error, require_eq_error] at h
  rcases h with ⟨-, rfl⟩ | ⟨_, -, h⟩
  · simp
  · rcases threadWait_error h with h | h | h
    · exact .inl h
    · exact .inr (.inl h)
    · exact .inr (.inr (.inr h))

theorem threadWakeupOne_error {q : WaitQueue} (h : threadWakeupOne q s = .error f) :
    s.queue (.wait q) = [] ∧ f = .assertion (.listHead (.wait q)) ∨
      s.Dangling ∧ f.IsInvalidAccess := by
  simp only [threadWakeupOne, bind_eq_error, Prod.exists, threadQueueRemoveFirst_eq_ok] at h
  rcases h with h | ⟨t, _, ⟨rest, hq, rfl⟩, h⟩
  · exact .inl (threadQueueRemoveFirst_error h)
  · obtain ⟨hno, hf⟩ := threadMakeRunnable_error h
    exact .inr ⟨⟨t, .inr ⟨_, hq ▸ List.mem_cons_self⟩, hno⟩, hf⟩

theorem dangling_of_threadWakeupOne {q : WaitQueue} (h : threadWakeupOne q s = .ok s')
    (hd : s'.Dangling) : s.Dangling := by
  obtain ⟨t, rest, th, hq, hth, hf, hp, rfl⟩ := threadWakeupOne_eq_ok.mp h
  exact dangling_of_setQueue hq
    (dangling_of_schedule (s := s.setQueue _ rest) ⟨th, hth, hf, hp⟩ hd)

/-- `thread_wakeup` looks before it wakes, so its list is never empty. -/
theorem threadWakeup_error {q : WaitQueue} (h : threadWakeup q s = .error f) :
    s.Dangling ∧ f.IsInvalidAccess := by
  obtain ⟨s₁, hd, hne, h⟩ := loop_error (I := fun s' => s'.Dangling → s.Dangling)
    (fun a b hI _ hb hd => hI (dangling_of_threadWakeupOne hb hd)) id h
  rcases threadWakeupOne_error h with ⟨hempty, -⟩ | ⟨hd₁, hf⟩
  · simp [hempty] at hne
  · exact ⟨hd hd₁, hf⟩

theorem dangling_of_threadWakeup {q : WaitQueue} (h : threadWakeup q s = .ok s')
    (hd : s'.Dangling) : s.Dangling :=
  (threadWakeup_rule (I := fun s' => s'.Dangling → s.Dangling)
    (fun _ _ hI hb hd => hI (dangling_of_threadWakeupOne hb hd)) id h).1 hd

/-- `merge_new_with_runnable` looks too, and leaves the new queue empty. -/
theorem mergeNewWithRunnable_error (h : mergeNewWithRunnable s = .error f) :
    s.Dangling ∧ f.IsInvalidAccess := by
  have hone : ∀ a b, (a.Dangling → s.Dangling) → mergeOne a = .ok b → b.Dangling → s.Dangling := by
    intro a b hI hb hd
    obtain ⟨t, rest, th, hq, hth, hf, hp, rfl⟩ := mergeOne_eq_ok.mp hb
    exact hI (dangling_of_setQueue hq
      (dangling_of_schedule (s := a.setQueue _ rest) ⟨th, hth, hf, hp⟩ hd))
  simp only [mergeNewWithRunnable, bind_eq_error, pure_ne_error, and_false, exists_false, or_false,
    require_eq_error] at h
  rcases h with h | ⟨s₁, h₁, hne, -⟩
  · obtain ⟨a, hd, hne, h⟩ := loop_error (I := fun s' => s'.Dangling → s.Dangling)
      (fun a b hI _ hb => hone a b hI hb) id h
    simp only [mergeOne, bind_eq_error, pure_ne_error, and_false, exists_false, or_false,
      Prod.exists, threadQueueRemoveFirst_eq_ok] at h
    rcases h with h | ⟨t, _, ⟨rest, hq, rfl⟩, h⟩
    · obtain ⟨hempty, -⟩ := threadQueueRemoveFirst_error h
      simp [hempty] at hne
    · have hplace : t = a.gCurrent ∨ ∃ q, t ∈ a.queue q := .inr ⟨_, hq ▸ List.mem_cons_self⟩
      rcases h with h | ⟨_, -, h⟩
      · obtain ⟨hno, hf⟩ := narrator_error h
        exact ⟨hd ⟨t, hplace, hno⟩, hf⟩
      · obtain ⟨hno, hf⟩ := deref_error h
        exact ⟨hd ⟨t, hplace, hno⟩, hf⟩
  · -- the loop ends with the new queue empty, so its assertion holds
    exact absurd (mergeLoop_rule (I := fun _ => True) (fun _ _ _ _ => trivial) trivial h₁).2 hne

theorem threadCreate_error {mode : ThreadMode} {arrival : ℕ}
    (h : threadCreate mode arrival s = .error f) :
    (.thread s.nextThread ∈ s.freed ∨ .process s.nextThread ∈ s.freed) ∧ f.IsInvalidAccess := by
  simp only [threadCreate, bind_eq_error, pure_ne_error, and_false, exists_false, or_false] at h
  obtain ⟨hno, hf⟩ := threadMakeRunnable_error h
  refine ⟨?_, hf⟩
  by_contra hfreed
  rw [not_or] at hfreed
  exact hno ⟨_, Function.update_self .., hfreed.1, hfreed.2⟩

theorem storeProcess_error {store : Process → Process} (h : storeProcess t store s = .error f) :
    ¬s.Allocated t ∧ f.IsInvalidAccess := by
  simp only [storeProcess, bind_eq_error, pure_ne_error, and_false, exists_false, or_false] at h
  rcases h with h | ⟨_, -, h⟩
  · exact derefProcess_error h
  · exact deref_error h

theorem threadCreateFromJob_error {process : Process} {mode : ThreadMode}
    (h : threadCreateFromJob process mode s = .error f) :
    (.thread s.nextThread ∈ s.freed ∨ .process s.nextThread ∈ s.freed) ∧ f.IsInvalidAccess := by
  simp only [threadCreateFromJob, threadMakeNew, bind_eq_error, pure_ne_error, and_false,
    exists_false, or_false] at h
  have hsome : ∀ s' : Sched, ¬s'.Allocated s.nextThread → s'.freed = s.freed →
      (∃ th, s'.threads s.nextThread = some th) →
      (.thread s.nextThread ∈ s.freed ∨ .process s.nextThread ∈ s.freed) := by
    rintro s' hno hfreed ⟨th, hth⟩
    by_contra hcon
    rw [not_or, ← hfreed] at hcon
    exact hno ⟨th, hth, hcon.1, hcon.2⟩
  rcases h with h | ⟨_, -, h⟩
  · obtain ⟨hno, hf⟩ := derefProcess_error h
    exact ⟨hsome _ hno rfl ⟨_, Function.update_self ..⟩, hf⟩
  · obtain ⟨hno, hf⟩ := deref_error h
    exact ⟨hsome _ hno rfl ⟨_, Function.update_self ..⟩, hf⟩

theorem threadDetach_error (h : threadDetach t s = .error f) :
    f = .assertion .refcount ∨ ¬s.Allocated t ∧ f.IsInvalidAccess := by
  simp only [threadDetach, bind_eq_error, require_eq_error] at h
  rcases h with h | ⟨th, hth, ⟨-, rfl⟩ | ⟨_, -, h⟩⟩
  · exact .inr (deref_error h)
  · exact .inl rfl
  · split at h
    · simp only [bind_eq_error, pure_ne_error, and_false, exists_false, or_false] at h
      obtain ⟨hno, hf⟩ := derefProcess_error h
      exact .inr ⟨fun ha => hno ((allocated_setThread ha).mpr ha), hf⟩
    · simp at h

theorem threadExitFinish_error {code : ℤ} (h : threadExitFinish code s = .error f) :
    s.queue .runqueue = [] ∧ f = .assertion (.listHead .runqueue) ∨
      s.Dangling ∧ f.IsInvalidAccess := by
  simp only [threadExitFinish, bind_eq_error] at h
  rcases h with h | ⟨th, hth, h | ⟨p, hp, h⟩⟩
  · obtain ⟨hno, hf⟩ := deref_error h
    exact .inr ⟨⟨_, .inl rfl, hno⟩, hf⟩
  · obtain ⟨hno, hf⟩ := derefProcess_error h
    exact .inr ⟨⟨_, .inl rfl, hno⟩, hf⟩
  · obtain ⟨th', hth', hf₁, hf₂, -⟩ := Sched.derefProcess_eq_ok.mp hp
    have halloc : s.Allocated s.gCurrent := ⟨th', hth', hf₁, hf₂⟩
    split at h
    · rcases bind_eq_error.mp h with h | ⟨s₁, h₁, h⟩
      · obtain ⟨hd, hf⟩ := threadWakeup_error h
        exact .inr ⟨dangling_of_setThread halloc hd, hf⟩
      · -- waking the joiners only lengthens the run queue
        have hkeep := (threadWakeup_rule (I := fun s' => (s'.Dangling → s.Dangling) ∧
            ∀ u ∈ s.queue .runqueue, u ∈ s'.queue .runqueue) (fun a b hI hb => by
          refine ⟨fun hd => hI.1 (dangling_of_threadWakeupOne hb hd), fun u hu => ?_⟩
          obtain ⟨t, rest, th, hq, -, -, -, rfl⟩ := threadWakeupOne_eq_ok.mp hb
          exact mem_scheduleInto.mpr (.inl (by simpa using hI.2 u hu)))
          ⟨dangling_of_setThread halloc, fun u hu => hu⟩ h₁).1
        rcases threadSchedule_error h with ⟨hempty, rfl⟩ | ⟨hd, hf⟩
        · refine .inl ⟨List.eq_nil_iff_forall_not_mem.mpr fun u hu => ?_, rfl⟩
          have := hkeep.2 u hu
          simp [hempty] at this
        · exact .inr ⟨hkeep.1 hd, hf⟩
    · rcases threadSchedule_error h with ⟨hempty, rfl⟩ | ⟨hd, hf⟩
      · exact .inl ⟨hempty, rfl⟩
      · exact .inr ⟨dangling_of_setThread halloc hd, hf⟩

theorem threadNotRunning_error (h : threadNotRunning t s = .error f) :
    f = .assertion .refcount ∨ f = .assertion .parent ∨ ¬s.Allocated t ∧ f.IsInvalidAccess := by
  simp only [threadNotRunning, bind_eq_error, pure_ne_error, and_false, exists_false, or_false,
    require_eq_error] at h
  rcases h with h | ⟨th, -, ⟨-, rfl⟩ | ⟨_, -, -, rfl⟩⟩
  · exact .inr (.inr (deref_error h))
  · exact .inl rfl
  · exact .inr (.inl rfl)

theorem firstResponse_error (h : firstResponse s = .error f) : s.Dangling ∧ f.IsInvalidAccess := by
  simp only [firstResponse, bind_eq_error, pure_ne_error, and_false, exists_false, or_false] at h
  rcases h with h | ⟨p, -, h⟩
  · obtain ⟨hno, hf⟩ := derefProcess_error h
    exact ⟨⟨_, .inl rfl, hno⟩, hf⟩
  · obtain ⟨hno, hf⟩ := deref_error h
    exact ⟨⟨_, .inl rfl, hno⟩, hf⟩

theorem timerProcessTick_error (h : timerProcessTick s = .error f) :
    s.Dangling ∧ f.IsInvalidAccess := by
  have hcur : ∀ {f : Fault}, ¬s.Allocated s.gCurrent ∧ f.IsInvalidAccess →
      s.Dangling ∧ f.IsInvalidAccess := fun h => ⟨⟨_, .inl rfl, h.1⟩, h.2⟩
  simp only [timerProcessTick, bind_eq_error] at h
  rcases h with h | ⟨th, hth, h | ⟨p, hp, h⟩⟩
  · exact hcur (deref_error h)
  · exact hcur (derefProcess_error h)
  · obtain ⟨th', hth', hf₁, hf₂, -⟩ := Sched.derefProcess_eq_ok.mp hp
    have halloc : s.Allocated s.gCurrent := ⟨th', hth', hf₁, hf₂⟩
    split at h
    · simp only [rrScheduler, bind_eq_error, pure_ne_error, and_false, exists_false,
        or_false] at h
      obtain ⟨hno, -⟩ := deref_error h
      exact absurd ((allocated_setThread (s := { s with gNumticks := u32Succ s.gNumticks })
        halloc).mpr halloc) hno
    · simp at h

theorem dangling_of_timerProcessTick (h : timerProcessTick s = .ok s') (hd : s'.Dangling) :
    s.Dangling := by
  simp only [timerProcessTick, bind_eq_ok] at h
  obtain ⟨th, -, p, hp, h⟩ := h
  obtain ⟨th', hth', hf₁, hf₂, -⟩ := Sched.derefProcess_eq_ok.mp hp
  have halloc : s.Allocated s.gCurrent := ⟨th', hth', hf₁, hf₂⟩
  split at h
  · simp only [rrScheduler, bind_eq_ok, pure_eq_ok] at h
    obtain ⟨_, -, rfl⟩ := h
    split at hd
    · exact dangling_of_setThread halloc hd
    · exact dangling_of_setThread halloc hd
  · obtain rfl := pure_eq_ok.mp h
    exact dangling_of_setThread halloc hd

theorem intHandleReturn_error (h : intHandleReturn s = .error f) :
    (f = .assertion .stateRunning ∧
        ∃ th, s.threads s.gCurrent = some th ∧ th.state ≠ .running) ∨
      s.Dangling ∧ f.IsInvalidAccess := by
  unfold intHandleReturn at h
  split at h
  · simp at h
  split at h
  · simp at h
  · simp only [bind_eq_error, pure_ne_error, and_false, exists_false, or_false] at h
    have hback : ∀ {s₁}, threadRelinquishCpu { s with gNeedReschedule := false } = .ok s₁ →
        s₁.Dangling → s.Dangling :=
      fun h₁ => dangling_of_relinquish (s := { s with gNeedReschedule := false }) h₁
    rcases h with h | ⟨s₁, h₁, h | ⟨s₂, h₂, h⟩⟩
    · exact threadRelinquishCpu_error (s := { s with gNeedReschedule := false }) h
    · obtain ⟨hno, hf⟩ := threadMakeRunnable_error h
      exact .inr ⟨hback h₁ ⟨_, .inl rfl, hno⟩, hf⟩
    · rcases threadNextRunnable_error h with ⟨hempty, -⟩ | ⟨hd, hf⟩
      · exact absurd hempty (threadMakeRunnable_ne_nil h₂)
      · exact .inr ⟨hback h₁ (dangling_of_threadMakeRunnable h₂ hd), hf⟩

end GeekOS
