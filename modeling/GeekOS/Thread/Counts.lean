import GeekOS.Thread.Moves

/-!
# The number of threads

`gen_pid` counts threads, and `g_num_threads` is what it has counted. Only `thread_create` and
`thread_create_from_job` change these numbers and that of the threads that have been made.
-/

namespace GeekOS

open Result

/-- How many threads have been made, the main thread among them: a creation is over when the new
thread comes to a queue. -/
def Sched.made (s : Sched) : ℕ := s.nextThread

/-- The counter inside `gen_pid`, `g_num_threads`, and the number of threads that have been made. -/
def Sched.counts (s : Sched) : ℕ × ℕ × ℕ := (s.pid, s.gNumThreads, s.made)

theorem counts_eq_iff {s : Sched} {pid num made : ℕ} :
    s.counts = (pid, num, made) ↔ s.pid = pid ∧ s.gNumThreads = num ∧ s.made = made := by
  simp [Sched.counts]

section Operations

variable {s s' : Sched} {t : ThreadId}

theorem threadMakeRunnable_counts (h : threadMakeRunnable t s = .ok s') :
    s'.counts = s.counts := by
  obtain ⟨th, -, -, -, rfl⟩ := threadMakeRunnable_eq_ok.mp h
  rfl

theorem threadNextRunnable_counts (h : threadNextRunnable s = .ok (t, s')) :
    s'.counts = s.counts := by
  obtain ⟨rest, th, -, -, -, -, rfl⟩ := threadNextRunnable_eq_ok.mp h
  rfl

theorem threadSchedule_counts (h : threadSchedule s = .ok s') : s'.counts = s.counts := by
  simp only [threadSchedule, threadSwitchTo, bind_eq_ok, Prod.exists, pure_eq_ok] at h
  obtain ⟨t, s₁, h₁, _, -, rfl⟩ := h
  have hnext := threadNextRunnable_counts h₁
  exact hnext

theorem threadRelinquishCpu_counts (h : threadRelinquishCpu s = .ok s') :
    s'.counts = s.counts := by
  obtain ⟨th, -, -, -, rfl⟩ := threadRelinquishCpu_eq_ok.mp h
  rfl

theorem threadYield_counts (h : threadYield s = .ok s') : s'.counts = s.counts := by
  simp only [threadYield, bind_eq_ok] at h
  obtain ⟨s₁, h₁, s₂, h₂, h⟩ := h
  exact (threadSchedule_counts h).trans
    ((threadMakeRunnable_counts h₂).trans (threadRelinquishCpu_counts h₁))

theorem threadWait_counts {q : WaitQueue} (h : threadWait q s = .ok s') :
    s'.counts = s.counts := by
  simp only [threadWait, bind_eq_ok] at h
  obtain ⟨_, -, s₁, h₁, h⟩ := h
  have hleft := threadRelinquishCpu_counts h₁
  exact (threadSchedule_counts h).trans hleft

theorem threadPark_counts {q : WaitQueue} (h : threadPark q s = .ok s') :
    s'.counts = s.counts := by
  simp only [threadPark, bind_eq_ok] at h
  obtain ⟨-, -, h⟩ := h
  have hwait := threadWait_counts h
  exact hwait

theorem threadWakeupOne_counts {q : WaitQueue} (h : threadWakeupOne q s = .ok s') :
    s'.counts = s.counts := by
  obtain ⟨t, rest, th, -, -, -, -, rfl⟩ := threadWakeupOne_eq_ok.mp h
  rfl

theorem threadWakeup_counts {q : WaitQueue} (h : threadWakeup q s = .ok s') :
    s'.counts = s.counts :=
  (threadWakeup_rule (I := fun s' => s'.counts = s.counts)
    (fun _ _ hI hb => (threadWakeupOne_counts hb).trans hI) rfl h).1

theorem mergeNewWithRunnable_counts (h : mergeNewWithRunnable s = .ok s') :
    s'.counts = s.counts := by
  refine (mergeNewWithRunnable_rule (I := fun s' => s'.counts = s.counts) ?_ rfl h).1
  intro a b hI hb
  obtain ⟨t, rest, th, -, -, -, -, rfl⟩ := mergeOne_eq_ok.mp hb
  exact hI

theorem memFree_counts {o : Object} (h : memFree o s = .ok s') : s'.counts = s.counts :=
  (threadWakeup_counts h).trans rfl

theorem memFreeFrame_counts {o : Object} (h : memFreeFrame o s = .ok s') :
    s'.counts = s.counts :=
  (threadWakeup_counts h).trans rfl

theorem threadExitFinish_counts {code : ℤ} (h : threadExitFinish code s = .ok s') :
    s'.counts = s.counts := by
  simp only [threadExitFinish, bind_eq_ok] at h
  obtain ⟨th, -, p, -, h⟩ := h
  split at h
  · obtain ⟨s₁, h₁, h⟩ := bind_eq_ok.mp h
    have hwoken := threadWakeup_counts h₁
    exact (threadSchedule_counts h).trans hwoken
  · have hnext := threadSchedule_counts h
    exact hnext

theorem firstResponse_counts (h : firstResponse s = .ok s') : s'.counts = s.counts := by
  obtain ⟨th, -, rfl⟩ := firstResponse_eq_ok h
  rfl

theorem timerProcessTick_counts (h : timerProcessTick s = .ok s') : s'.counts = s.counts := by
  simp only [timerProcessTick, bind_eq_ok] at h
  obtain ⟨th, -, p, -, h⟩ := h
  split at h
  · simp only [rrScheduler, bind_eq_ok, pure_eq_ok] at h
    obtain ⟨_, -, rfl⟩ := h
    split <;> rfl
  · obtain rfl := pure_eq_ok.mp h
    rfl

theorem intHandleReturn_counts (h : intHandleReturn s = .ok s') : s'.counts = s.counts := by
  unfold intHandleReturn at h
  split at h
  · exact congrArg Sched.counts (pure_eq_ok.mp h).symm
  · split at h
    · exact congrArg Sched.counts (pure_eq_ok.mp h).symm
    · simp only [bind_eq_ok, Prod.exists, pure_eq_ok] at h
      obtain ⟨s₁, h₁, s₂, h₂, t, s₃, h₃, rfl⟩ := h
      have hleft := threadRelinquishCpu_counts h₁
      exact (threadNextRunnable_counts h₃).trans ((threadMakeRunnable_counts h₂).trans hleft)

/-- `thread_create_from_job` has made the thread. -/
theorem threadCreateFromJob_counts {process : Process} {mode : ThreadMode}
    (h : threadCreateFromJob process mode s = .ok (t, s')) :
    s'.counts = (s.pid, s.gNumThreads, s.made + 1) := by
  obtain ⟨-, rfl⟩ := threadCreateFromJob_eq_ok h
  rfl

end Operations

end GeekOS
