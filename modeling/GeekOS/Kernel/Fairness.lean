import GeekOS.Library.Progress
import GeekOS.Kernel.Sorted
import GeekOS.Kernel.TimeSlice

/-!
# Fairness of FCFS and RR

Under FCFS and RR the threads get the CPU in the order in which they have joined the run queue: the
threads dispatched so far, followed by those in the run queue, are one line to which threads only
join at the end. Under RR a thread in that line need not wait for those in front of it to give up
the CPU. Each preemptible timer interrupt brings the current time slice nearer to its end, so a
number of them is enough that depends on the place in the line and on the quantum only.

* `lineup_of_run`: nobody in the line is overtaken;
* `roundRobin_dispatches`: no ready thread starves under RR.
-/

namespace GeekOS

open Result TransitionSystem

/-- The threads dispatched so far, and behind them those that are ready. -/
def Sched.lineup (s : Sched) : List ThreadId := s.dispatched ++ s.queue .runqueue

/-! ## The order of dispatches -/

section Lineup

variable {s : Sched} {t : ThreadId}

/-- A thread joins the run queue at its end. -/
theorem Sched.lineup_scheduleInto (h : ¬s.gScheduler.Sorting) :
    (scheduleInto .runqueue t s).lineup = s.lineup ++ [t] := by
  simp [Sched.lineup, scheduleInto, scheduler_of_not_sorting h, fcfsScheduler, Sched.enqueue,
    Sched.setQueue]

/-- The other queues do not matter. -/
theorem Sched.lineup_congr {s' : Sched} (hdisp : s'.dispatched = s.dispatched)
    (hqueue : s'.queue .runqueue = s.queue .runqueue) : s'.lineup = s.lineup := by
  rw [Sched.lineup, Sched.lineup, hdisp, hqueue]

/-- A move leaves the line alone or appends to it. -/
theorem Move.lineup {l : Option Label} {c c' : Config} (hm : Move l c c')
    (h : ¬c.2.gScheduler.Sorting) : c.2.lineup <+: c'.2.lineup := by
  cases hm with
  | touch | globals | detach | exit | prioritize | free | select | preemption | reschedule =>
    exact List.prefix_rfl
  | @dispatch s t rest th hq hth =>
    -- the head of the run queue becomes the last of the dispatched threads
    simp [Sched.lineup, Sched.setQueue, hq]
  | @ready s t th hth hrun =>
    rw [Sched.lineup_scheduleInto (show ¬(s.setThread t _).gScheduler.Sorting from h)]
    exact List.prefix_append _ _
  | @block s t th q hth hrun =>
    have hline : (threadQueueAppend (.wait q) t s).lineup = s.lineup :=
      Sched.lineup_congr rfl (by simp [threadQueueAppend])
    exact hline.symm ▸ List.prefix_refl _
  | @wake x s t rest th q hq hth =>
    have hline : ((s.setQueue (.wait q) rest).setThread t { th with state := .ready }).lineup =
        s.lineup := Sched.lineup_congr rfl (by simp)
    rw [Sched.lineup_scheduleInto (by exact h), hline]
    exact List.prefix_append _ _
  | @merge x s t rest th hq hth =>
    have hline : ((s.setQueue .newqueue rest).setThread t { th with state := .ready }).lineup =
        s.lineup := Sched.lineup_congr rfl (by simp)
    rw [Sched.lineup_scheduleInto (by exact h), hline]
    exact List.prefix_append _ _
  | @spawn x s th hstate href =>
    rw [Sched.lineup_scheduleInto (show ¬(allocThread th s).2.gScheduler.Sorting from h)]
    exact List.prefix_append _ _
  | @spawnNew x s th hstate href =>
    have hline : (scheduleInto .newqueue s.nextThread (allocThread th s).2).lineup = s.lineup :=
      Sched.lineup_congr rfl (by simp [scheduleInto, allocThread])
    exact hline.symm ▸ List.prefix_refl _

/-- The same of a sequence of moves that selects no other scheduler. -/
theorem Moves.lineup {A : Label → Prop} {c c' : Config} (h : Moves A c c')
    (hA : ∀ g, ¬A (.select g)) (hsched : ¬c.2.gScheduler.Sorting) :
    c.2.lineup <+: c'.2.lineup := by
  have hI := h.invariant
    (I := fun c₁ => Moves A c c₁ ∧ c.2.lineup <+: c₁.2.lineup) ?_ ⟨.refl c, List.prefix_rfl⟩
  · exact hI.2
  rintro l c₁ c₂ hl ⟨hmoves, hpre⟩ hm
  have hsame : c₁.2.gScheduler = c.2.gScheduler := hmoves.gScheduler_eq hA
  exact ⟨hmoves.trans (.single ⟨l, hl, hm⟩), hpre.trans (hm.lineup (hsame ▸ hsched))⟩

end Lineup

namespace Machine

variable {m m₀ m' : Machine} {e : Event} {tr : List (Machine × Event)}

/-- The store to `g_scheduler` leaves the queues and the history of dispatches alone. -/
theorem Selects.lineup_eq (h : m.Selects e) (hs : m.Step e m') :
    m'.kernel.sched.lineup = m.kernel.sched.lineup := by
  unfold Selects at h
  split at h
  next memory g quantum rest hacts =>
    obtain ⟨acts, k', hk, rfl⟩ := (exec_resume hacts).mp hs.2
    cases SimulationAct.run_step hk with
    | setScheduler => rfl
  next => exact h.elim

/-- A step leaves the line alone or appends to it. -/
theorem Step.lineup (hs : m.Step e m') (h : ¬m.kernel.sched.gScheduler.Sorting) :
    m.kernel.sched.lineup <+: m'.kernel.sched.lineup := by
  by_cases hsel : m.Selects e
  · exact (hsel.lineup_eq hs).symm ▸ List.prefix_refl _
  · exact (exec_moves hs.2).lineup (fun g hg => hsel (.of_allows hg)) h

end Machine

/-- In every run that takes its steps while FCFS or RR is selected, the threads are dispatched in
the order in which they have joined the run queue: the line of those dispatched so far and those
ready is what it was at the start, with the threads that have joined since then behind it. -/
theorem lineup_of_run {m₀ m : Machine} {tr : List (Machine × Event)}
    (h : Run Machine.Step m₀ tr m) (hsched : ∀ p ∈ tr, ¬p.1.kernel.sched.gScheduler.Sorting) :
    m₀.kernel.sched.lineup <+: m.kernel.sched.lineup :=
  h.invariant_of_steps (I := fun m => m₀.kernel.sched.lineup <+: m.kernel.sched.lineup)
    (C := fun m _ => ¬m.kernel.sched.gScheduler.Sorting) hsched List.prefix_rfl
    fun _ _ _ hpre hC hs => hpre.trans (Machine.Step.lineup hs hC)

/-- The menu selects RR, and two ticks end the time slice of the idle thread: the line grows at its
end, where the idle thread joins it. -/
theorem lineup_twoTicks : ∃ tr m, Run Machine.Step (Machine.after (selectRr 1)) tr m ∧
    m.kernel.sched.lineup = [idleThread, workqueueThread, mainThread, idleThread] ∧
      (Machine.after (selectRr 1)).kernel.sched.lineup <+: m.kernel.sched.lineup := by
  have hsome : ((Machine.after (selectRr 1)).runs [.timer, .timer]).any fun r =>
      (∀ p ∈ r.1, ¬p.1.kernel.sched.gScheduler.Sorting) ∧
        r.2.kernel.sched.lineup = [1, 2, 0, 1] := by decide
  obtain ⟨⟨tr, m⟩, hr, hend⟩ := (Option.any_eq_true _ _).mp hsome
  rw [decide_eq_true_iff] at hend
  exact ⟨tr, m, Machine.run_of_runs hr, hend.2, lineup_of_run (Machine.run_of_runs hr) hend.1⟩

/-! ## Time slices come to an end -/

/-- An interrupt returns to the thread that it has interrupted, or dispatches another one. The
request for a reschedule is cleared in the second case only. -/
theorem intHandleReturn_cases {s s' : Sched} (h : intHandleReturn s = .ok s') :
    s' = s ∧ (s.gPreemption = true → s.gNeedReschedule = false) ∨
      s'.dispatched = s.dispatched ++ [s'.gCurrent] := by
  by_cases hswitch : s.gPreemption = true ∧ s.gNeedReschedule = true
  · exact .inr ((intHandleReturn_booking h).2 hswitch.1 hswitch.2)
  · refine .inl ⟨?_, fun hp => by simpa [hp] using hswitch⟩
    unfold intHandleReturn at h
    split at h
    · exact (pure_eq_ok.mp h).symm
    · split at h
      · exact (pure_eq_ok.mp h).symm
      · simp_all

/-- A tick takes no request for a reschedule back. -/
theorem timerProcessTick_gNeedReschedule {s s' : Sched} (h : timerProcessTick s = .ok s')
    (hn : s.gNeedReschedule = true) : s'.gNeedReschedule = true := by
  simp only [timerProcessTick, bind_eq_ok] at h
  obtain ⟨th, -, p, -, h⟩ := h
  split at h
  · simp only [rrScheduler, bind_eq_ok, pure_eq_ok] at h
    obtain ⟨_, -, rfl⟩ := h
    split
    · rfl
    · exact hn
  · obtain rfl := pure_eq_ok.mp h
    exact hn

namespace Machine

variable {m m' : Machine} {e : Event} {q : ℕ}

/-- A reschedule has been asked for. -/
abbrev needReschedule (m : Machine) : Bool := m.kernel.sched.gNeedReschedule

/-- The event is a timer interrupt that may take the CPU from the current thread. -/
def Preempts (m : Machine) (e : Event) : Prop :=
  e = .timer ∧ m.kernel.sched.gPreemption = true

instance (m : Machine) (e : Event) : Decidable (m.Preempts e) :=
  inferInstanceAs (Decidable (_ ∧ _))

/-- A timer interrupt ends the time slice, or it is the tick alone, and leaves no request for a
reschedule behind if it may preempt. -/
theorem Step.timer_cases (hs : m.Step .timer m') : m'.slice = m.slice + 1 ∨
    m'.slice = m.slice ∧ timerProcessTick m.kernel.sched = .ok m'.kernel.sched ∧
      (m.kernel.sched.gPreemption = true → m'.needReschedule = false) := by
  obtain ⟨s, hs₁, hrest⟩ := bind_eq_ok.mp hs.2
  obtain ⟨s', hs₂, hrest⟩ := bind_eq_ok.mp hrest
  obtain rfl := pure_eq_ok.mp hrest
  obtain ⟨a, htick⟩ := timerProcessTick_ticked hs₁
  have hdisp : s.dispatched.length = m.slice := congrArg List.length htick.kept.dispatched
  rcases intHandleReturn_cases hs₂ with ⟨rfl, hn⟩ | hnext
  · exact .inr ⟨hdisp, hs₁, fun hp => hn (htick.gPreemption.trans hp)⟩
  · refine .inl ?_
    show s'.dispatched.length = m.slice + 1
    rw [hnext, List.length_append, hdisp, List.length_singleton]

/-- As long as a time slice lasts, a request for a reschedule stays. -/
theorem Step.needReschedule (hs : m.Step e m') (hslice : m'.slice = m.slice)
    (hn : m.needReschedule = true) : m'.needReschedule = true := by
  cases e with
  | call a =>
    obtain rfl := pure_eq_ok.mp hs.2
    exact hn
  | resume memory =>
    have hsame := (exec_moves hs.2).gNeedReschedule_eq fun b hb => by
      obtain ⟨_, _, -, hb⟩ := hb
      exact hb
    exact hsame.trans hn
  | timer =>
    rcases hs.timer_cases with hend | ⟨-, htick, -⟩
    · omega
    · exact timerProcessTick_gNeedReschedule htick hn
  | keyboard keycode =>
    obtain ⟨k, hk, hrest⟩ := bind_eq_ok.mp hs.2
    obtain ⟨s, hs₂, hrest⟩ := bind_eq_ok.mp hrest
    obtain rfl := pure_eq_ok.mp hrest
    -- without a switch the request stays, and the handler makes one at most
    have hstay : k.sched.gNeedReschedule = true ∧
        k.sched.dispatched = m.kernel.sched.dispatched := by
      rcases keyboardIntHandler_eq_ok.mp hk with ⟨-, rfl⟩ | ⟨code, s₁, -, hs₁, rfl⟩
      · exact ⟨hn, rfl⟩
      · exact ⟨rfl, (threadWakeup_effect hs₁).2.dispatched⟩
    rcases intHandleReturn_cases hs₂ with ⟨rfl, -⟩ | hnext
    · exact hstay.1
    · -- the slice would have ended
      have hlen : s.dispatched.length = m.kernel.sched.dispatched.length := hslice
      rw [hnext, hstay.2] at hlen
      simp at hlen

/-- How much of a time slice under RR is over: its ticks, and all of it once a reschedule has been
asked for. A counter that is about to wrap around has not begun to count. -/
def spent (q : ℕ) (m : Machine) : ℕ :=
  if m.needReschedule = true then q + 1
  else if m.ticks = 2 ^ 32 - 1 then 0
  else if m.ticks ≤ q then m.ticks + 1
  else 1

theorem spent_le (q : ℕ) (m : Machine) : m.spent q ≤ q + 1 := by
  unfold spent
  split_ifs <;> omega

/-- The time slices so far. -/
def progress (q : ℕ) (m : Machine) : ℕ := m.slice * (q + 1) + m.spent q

/-- A slice that goes on without a tick. -/
theorem spent_le_spent (hticks : m'.ticks = m.ticks)
    (hn : m.needReschedule = true → m'.needReschedule = true) : m.spent q ≤ m'.spent q := by
  have hle := m.spent_le q
  unfold spent at hle ⊢
  by_cases h' : m'.needReschedule = true
  · rwa [if_pos h']
  · have h : ¬m.needReschedule = true := fun h => h' (hn h)
    rw [if_neg h, if_neg h', hticks]

/-- Behind a tick that takes the counter past the quantum a reschedule has been asked for. -/
theorem needReschedule_of_tick (h : timerProcessTick m.kernel.sched = .ok m'.kernel.sched)
    (hrr : m.kernel.sched.gScheduler = .rr ∧ m.kernel.sched.gQuantum = q)
    (hpast : q < u32Succ m.ticks) : m'.needReschedule = true := by
  obtain ⟨a, ha⟩ := timerProcessTick_ticked h
  rw [ticks, Sched.ticks_eq ha.before, ← hrr.2] at hpast
  exact ha.rr hrr.1 hpast

/-- A slice that goes on with a tick. -/
theorem progress_tick (hslice : m'.slice = m.slice) (hticks : m'.ticks = u32Succ m.ticks)
    (hq : q < 2 ^ 31) (hlt : m.ticks < 2 ^ 32)
    (hstay : m.needReschedule = true → m'.needReschedule = true)
    (hpast : q < u32Succ m.ticks → m'.needReschedule = true)
    (hclear : m.Preempts e → m'.needReschedule = false) :
    m.progress q + (if m.Preempts e then 1 else 0) ≤ m'.progress q := by
  have hle := m.spent_le q
  rw [progress, progress, hslice, Nat.add_assoc]
  refine Nat.add_le_add_left ?_ _
  by_cases h' : m'.needReschedule = true
  · -- the tick could not preempt, and has brought the slice to its end
    have hnot : ¬m.Preempts e := fun h => by simp [hclear h] at h'
    have hfull : m'.spent q = q + 1 := if_pos h'
    rw [if_neg hnot, Nat.add_zero, hfull]
    exact hle
  · have h : ¬m.needReschedule = true := fun h => h' (hstay h)
    have hcount : u32Succ m.ticks ≤ q := not_lt.mp fun hlt => h' (hpast hlt)
    unfold spent
    rw [if_neg h, if_neg h', hticks]
    unfold u32Succ at hcount ⊢
    split_ifs <;> omega

/-- No step under RR undoes progress, and a preempting timer interrupt makes some. -/
theorem Step.progress (hs : m.Step e m') (hr : Reachable Machine.Step boot m) (hq : q < 2 ^ 31)
    (hrr : m.kernel.sched.gScheduler = .rr ∧ m.kernel.sched.gQuantum = q) :
    m.progress q + (if m.Preempts e then 1 else 0) ≤ m'.progress q := by
  have hle := m.spent_le q
  have hlt : m.ticks < 2 ^ 32 := by
    obtain ⟨tr, hrun⟩ := hr
    rw [ticks_eq_charged hrun]
    exact Nat.mod_lt _ (by decide)
  -- the time slice goes on, or the step has ended it
  rcases hs.slice hr with ⟨hslice, hticks⟩ | ⟨hslice, hzero⟩
  · by_cases he : e = .timer
    · subst he
      rw [if_pos rfl] at hticks
      obtain ⟨-, htick, hclear⟩ := hs.timer_cases.resolve_left (by omega)
      exact progress_tick hslice hticks hq hlt (hs.needReschedule hslice)
        (fun hpast => needReschedule_of_tick htick hrr hpast) fun h => hclear h.2
    · have hnot : ¬m.Preempts e := fun h => he h.1
      rw [if_neg hnot, Nat.add_zero, Machine.progress, Machine.progress, hslice]
      rw [if_neg he] at hticks
      exact Nat.add_le_add_left (spent_le_spent hticks (hs.needReschedule hslice)) _
  · -- the next slice begins, with at least one unit of it
    have hone : 1 ≤ m'.spent q := by
      have hcounts : (0 : ℕ) ≠ 2 ^ 32 - 1 := by decide
      unfold spent
      rw [hzero, if_neg hcounts, if_pos (Nat.zero_le q)]
      split <;> omega
    rw [Machine.progress, Machine.progress, hslice, Nat.succ_mul]
    split_ifs <;> omega

end Machine

/-- In every run under RR with the quantum `q`, the thread at place `k` of the run queue is
dispatched, with `k` threads before it, by the time there have been more than `(k + 1) * (q + 1)`
timer interrupts with preemption on. -/
theorem roundRobin_dispatches {m₀ m : Machine} {tr : List (Machine × Event)} {q k : ℕ}
    {t : ThreadId} (hr : Reachable Machine.Step boot m₀) (h : Run Machine.Step m₀ tr m)
    (hq : q < 2 ^ 31)
    (hrr : ∀ p ∈ tr, p.1.kernel.sched.gScheduler = .rr ∧ p.1.kernel.sched.gQuantum = q)
    (ht : (m₀.kernel.sched.queue .runqueue)[k]? = some t)
    (hticks : (k + 1) * (q + 1) < tr.countP fun p => p.1.Preempts p.2) :
    m.kernel.sched.dispatched[m₀.slice + k]? = some t := by
  have hline := h.invariant_of_steps
    (I := fun m => m₀.kernel.sched.lineup <+: m.kernel.sched.lineup)
    (C := fun m _ => m.kernel.sched.gScheduler = .rr ∧ m.kernel.sched.gQuantum = q) hrr
    List.prefix_rfl
    fun _ _ _ hpre hC hs => hpre.trans (Machine.Step.lineup hs (by rw [hC.1]; exact id))
  have hprogress := (h.restrict hrr).add_countP_le (C := Machine.Preempts)
    (I := Reachable Machine.Step boot) (μ := Machine.progress q) hr
    (fun _ _ _ hr hs => hr.tail hs.1) fun _ _ _ hr hs => hs.1.progress hr hq hs.2
  -- enough time slices are over
  have hslice : m₀.slice + k < m.slice := by
    have hle := m.spent_le q
    have hmul : (m₀.slice + (k + 1)) * (q + 1) < (m.slice + 1) * (q + 1) := by
      unfold Machine.progress at hprogress
      rw [Nat.add_mul, Nat.succ_mul m.slice]
      omega
    have := Nat.lt_of_mul_lt_mul_right hmul
    omega
  -- and the line has kept the thread's place
  have hplace : m₀.kernel.sched.lineup[m₀.slice + k]? = some t := by
    have hready : m₀.kernel.sched.dispatched.length ≤ m₀.slice + k := Nat.le_add_right _ _
    rw [Sched.lineup, List.getElem?_append_right hready]
    simpa [Machine.slice] using ht
  obtain ⟨joined, hjoined⟩ := hline
  have hlen : m₀.slice + k < m₀.kernel.sched.lineup.length :=
    (List.getElem?_eq_some_iff.mp hplace).1
  rw [← List.getElem?_append_left hlen, hjoined, Sched.lineup,
    List.getElem?_append_left (by exact hslice)] at hplace
  exact hplace

/-- When the menu has selected RR with a quantum of one tick and the idle thread runs, the main
thread is second in the run queue, behind the workqueue thread. Five ticks are enough. -/
theorem roundRobin_dispatches_fiveTicks :
    ∃ tr m, Run Machine.Step (Machine.after (selectRr 1)) tr m ∧ tr.length = 5 ∧
      (Machine.after (selectRr 1)).kernel.sched.queue .runqueue = [workqueueThread, mainThread] ∧
      m.kernel.sched.dispatched[2]? = some mainThread := by
  have hsome : ((Machine.after (selectRr 1)).runs (List.replicate 5 .timer)).any fun r =>
      r.1.length = 5 ∧
      (∀ p ∈ r.1, p.1.kernel.sched.gScheduler = .rr ∧ p.1.kernel.sched.gQuantum = 1) ∧
        4 < r.1.countP fun p => p.1.Preempts p.2 := by decide
  obtain ⟨⟨tr, m⟩, hr, hend⟩ := (Option.any_eq_true _ _).mp hsome
  rw [decide_eq_true_iff] at hend
  exact ⟨tr, m, Machine.run_of_runs hr, hend.1, by decide, roundRobin_dispatches (k := 1)
    (Machine.reachable_after (by decide)) (Machine.run_of_runs hr) (by decide) hend.2.1 (by decide)
    (by simpa using hend.2.2)⟩

end GeekOS
