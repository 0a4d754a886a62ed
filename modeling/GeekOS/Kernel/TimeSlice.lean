import GeekOS.Kernel.Accounts
import GeekOS.Kernel.Destruction

/-!
# Time slices under RR

The time slices of a run are numbered by the dispatches before them. Every slice starts with the
counter of its thread at zero, and the counter follows the ticks charged in it. Under RR with
preemption on, a slice ends with the first tick behind which the counter is above `g_quantum`:
`RR_scheduler` lets one tick more than the quantum pass.

* `ticks_eq_charged`: the counter of the current thread counts the ticks of its slice;
* `charged_le_succ`: no slice is charged more than the quantum and one tick;
* `timeSlices_exceed`: whatever the quantum, some run charges a slice that tick.
-/

namespace GeekOS

open Result TransitionSystem

namespace Machine

/-- The number of the time slice, which is the number of dispatches so far. -/
def slice (m : Machine) : ℕ := m.kernel.sched.dispatched.length

/-- `g_current->num_ticks`. -/
abbrev ticks (m : Machine) : ℕ := m.kernel.sched.ticks

end Machine

/-- The timer ticks charged in the time slice `n`. The last of them may have ended it. -/
def charged (n : ℕ) (tr : List (Machine × Event)) : ℕ :=
  tr.countP fun p => p.2 = .timer ∧ p.1.slice = n

/-- Throughout the time slice `n` the scheduler is RR with the quantum `q`, and preemption is on
whenever a tick comes. -/
structure RoundRobin (q n : ℕ) (tr : List (Machine × Event)) : Prop where
  scheduler : ∀ p ∈ tr, p.1.slice = n → p.1.kernel.sched.gScheduler = .rr
  quantum : ∀ p ∈ tr, p.1.slice = n → p.1.kernel.sched.gQuantum = q
  preemption : ∀ p ∈ tr, p.1.slice = n → p.2 = .timer → p.1.kernel.sched.gPreemption = true

instance (q n : ℕ) (tr : List (Machine × Event)) : Decidable (RoundRobin q n tr) :=
  decidable_of_iff ((∀ p ∈ tr, p.1.slice = n → p.1.kernel.sched.gScheduler = .rr) ∧
      (∀ p ∈ tr, p.1.slice = n → p.1.kernel.sched.gQuantum = q) ∧
      ∀ p ∈ tr, p.1.slice = n → p.2 = .timer → p.1.kernel.sched.gPreemption = true)
    ⟨fun ⟨h₁, h₂, h₃⟩ => ⟨h₁, h₂, h₃⟩, fun ⟨h₁, h₂, h₃⟩ => ⟨h₁, h₂, h₃⟩⟩

/-- Every dispatch of the run starts with the counter of the thread at zero. -/
def StartsAtZero (tr : List (Machine × Event)) : Prop :=
  ∀ p ∈ tr, ∀ m', p.1.Step p.2 m' → p.1.slice < m'.slice → m'.ticks = 0

section Step

variable {m m' : Machine} {e : Event}

/-- A timer interrupt charges a tick in the slice, and may end it. -/
theorem Machine.Step.slice_timer (hs : m.Step .timer m') (hr : Reachable Machine.Step boot m) :
    (m'.slice = m.slice ∧ m'.ticks = u32Succ m.ticks ∨ m'.slice = m.slice + 1 ∧ m'.ticks = 0) ∧
      (m.kernel.sched.gPreemption = true → m.kernel.sched.gScheduler = .rr →
        m.kernel.sched.gQuantum < u32Succ m.ticks → m'.slice = m.slice + 1) := by
  obtain ⟨s, a, htick, hbooking, hswitch, -⟩ := Machine.exec_timer hs.2
  have hrest := htick.rested (reachable_rested hr) (current_not_queued hr)
  -- the tick leaves the current thread and the threads made so far alone
  have hne : s.gCurrent ≠ s.nextThread := by
    rw [htick.kept.gCurrent, htick.nextThread]
    exact current_ne_nextThread hr
  constructor
  · rcases hbooking.ticks hrest hne with ⟨hkept, hticks⟩ | ⟨hdisp, hzero⟩
    · refine .inl ⟨?_, hticks.trans htick.ticks⟩
      rw [Machine.slice, hkept.dispatched, htick.kept.dispatched, Machine.slice]
    · refine .inr ⟨?_, hzero⟩
      simp [Machine.slice, hdisp, htick.kept.dispatched]
  · intro hpre hrr hpast
    rw [Machine.ticks, Sched.ticks_eq htick.before] at hpast
    have hdisp := hswitch (htick.gPreemption.trans hpre) (htick.rr hrr hpast)
    simp [Machine.slice, hdisp, htick.kept.dispatched]

/-- A step goes on with the slice, whose counter counts a timer tick, or starts the next one. -/
theorem Machine.Step.slice (hs : m.Step e m') (hr : Reachable Machine.Step boot m) :
    m'.slice = m.slice ∧ m'.ticks = (if e = .timer then u32Succ m.ticks else m.ticks) ∨
      m'.slice = m.slice + 1 ∧ m'.ticks = 0 := by
  by_cases he : e = .timer
  · subst he
    exact (hs.slice_timer hr).1
  · rw [if_neg he]
    rcases (Machine.exec_booking hs.2 he).ticks (reachable_rested hr) (current_ne_nextThread hr)
      with ⟨hkept, hticks⟩ | ⟨hdisp, hzero⟩
    · exact .inl ⟨congrArg List.length hkept.dispatched, hticks⟩
    · exact .inr ⟨by simp [Machine.slice, hdisp], hzero⟩

end Step

/-! ## Charged ticks -/

section Run

variable {m m' : Machine} {e : Event} {tr : List (Machine × Event)} {n q : ℕ}

theorem charged_append_timer (h : m.slice = n) :
    charged n (tr ++ [(m, .timer)]) = charged n tr + 1 := by
  simp [charged, h]

theorem charged_append_of_ne (h : ¬(e = .timer ∧ m.slice = n)) :
    charged n (tr ++ [(m, e)]) = charged n tr := by
  simp only [charged, List.countP_append, List.countP_singleton, decide_eq_true_eq, if_neg h,
    Nat.add_zero]

/-- No slice behind the current one has been charged, and the counter of the current thread counts
the ticks charged in its slice. -/
theorem charged_of_run (h : Run Machine.Step boot tr m) :
    (∀ n, m.slice < n → charged n tr = 0) ∧ m.ticks = charged m.slice tr % 2 ^ 32 := by
  induction h with
  | nil => exact ⟨fun _ _ => rfl, by decide⟩
  | @snoc m m' tr e hrun hs ih =>
    obtain ⟨hlater, hticks⟩ := ih
    have hkeep : ∀ n, m.slice < n → charged n (tr ++ [(m, e)]) = 0 := fun n hn => by
      rw [charged_append_of_ne fun hc => hn.ne hc.2]
      exact hlater n hn
    rcases hs.slice hrun.reachable with ⟨hslice, hcount⟩ | ⟨hslice, hzero⟩
    · refine ⟨fun n hn => hkeep n (hslice ▸ hn), ?_⟩
      rw [hcount, hslice]
      by_cases he : e = .timer
      · subst he
        -- the counter and the count both go up by one, the counter as a `u32_t`
        rw [if_pos rfl, charged_append_timer rfl, u32Succ, hticks]
        omega
      · rw [if_neg he, charged_append_of_ne fun hc => he hc.1, hticks]
    · refine ⟨fun n hn => hkeep n (by omega), ?_⟩
      rw [hzero, hslice]
      exact (congrArg (· % 2 ^ 32) (hkeep (m.slice + 1) (Nat.lt_succ_self _))).symm

/-- The counter of the current thread counts the ticks charged in its slice. -/
theorem ticks_eq_charged (h : Run Machine.Step boot tr m) :
    m.ticks = charged m.slice tr % 2 ^ 32 := (charged_of_run h).2

/-- Every thread starts each dispatch with its counter at zero. -/
theorem startsAtZero_of_run (h : Run Machine.Step boot tr m) : StartsAtZero tr := by
  intro p hp m' hs hlt
  rcases hs.slice (h.step_of_mem hp).1 with ⟨hslice, -⟩ | ⟨-, hzero⟩
  · exact absurd hslice hlt.ne'
  · exact hzero

/-- A condition on a run holds of what the run was before its last step. -/
theorem RoundRobin.of_append {p : Machine × Event} (h : RoundRobin q n (tr ++ [p])) :
    RoundRobin q n tr where
  scheduler p hp := h.scheduler p (List.mem_append_left _ hp)
  quantum p hp := h.quantum p (List.mem_append_left _ hp)
  preemption p hp := h.preemption p (List.mem_append_left _ hp)

/-- A slice under RR is charged one tick more than the quantum at most, and not more than the
quantum as long as it lasts. -/
theorem charged_le_succ (h : Run Machine.Step boot tr m) (hq : q < 2 ^ 31)
    (hrr : RoundRobin q n tr) : charged n tr ≤ q + 1 ∧ (m.slice = n → charged n tr ≤ q) := by
  induction h with
  | nil => exact ⟨Nat.zero_le _, fun _ => Nat.zero_le _⟩
  | @snoc m m' tr e hrun hs ih =>
    obtain ⟨hle, hlast⟩ := ih hrr.of_append
    by_cases hc : e = .timer ∧ m.slice = n
    · -- a tick is charged to the slice, which has not been charged more than the quantum so far
      obtain ⟨rfl, hn⟩ := hc
      have hmem : (m, Event.timer) ∈ tr ++ [(m, .timer)] := by simp
      have hcur := hlast hn
      rw [charged_append_timer hn]
      refine ⟨by omega, fun hn' => ?_⟩
      -- the slice has not ended with this tick, so the counter is not above the quantum
      by_contra hpast
      have hticks := ticks_eq_charged hrun
      rw [hn, Nat.mod_eq_of_lt (by omega)] at hticks
      have hquantum := hrr.quantum _ hmem hn
      have hend := (hs.slice_timer hrun.reachable).2 (hrr.preemption _ hmem hn rfl)
        (hrr.scheduler _ hmem hn) (by
          rw [hticks, u32Succ, Nat.mod_eq_of_lt (by omega)]
          exact hquantum ▸ (by omega))
      omega
    · rw [charged_append_of_ne hc]
      refine ⟨hle, fun hn' => ?_⟩
      rcases hs.slice hrun.reachable with ⟨hslice, -⟩ | ⟨hslice, -⟩
      · exact hlast (hslice ▸ hn')
      · -- the slice has just begun, and nothing has been charged to it
        rw [(charged_of_run hrun).1 n (by omega)]
        exact Nat.zero_le _

end Run

/-! ## A slice that is charged one tick too many -/

/-- The menu selects RR with a quantum, and `geekos_main` yields to the idle thread. -/
def selectRr (quantum : ℕ) : List Event :=
  Machine.call (.simulation (.setScheduler .rr quantum)) 1 ++ Machine.call (.thread .yield) 1

namespace Machine

variable {m m' : Machine} {q : ℕ}

/-- A timer interrupt never fails. -/
theorem exec_timer_isOk (hr : Reachable Step boot m) : ∃ m', m.exec .timer = .ok m' := by
  cases h : m.exec .timer with
  | ok m' => exact ⟨m', rfl⟩
  | error f =>
    simp only [exec, bind_eq_error, pure_ne_error, and_false, exists_false, or_false] at h
    rcases h with h | ⟨s, hs, h⟩
    · exact absurd (timerProcessTick_error h).1 (reachable_not_dangling hr)
    · rcases intHandleReturn_error h with ⟨-, th, hth, hne⟩ | ⟨hd, -⟩
      · -- the tick leaves the current thread running
        obtain ⟨hmoves, hcur, -⟩ := timerProcessTick_moves (A := fun _ => True)
          (x := some m.current) (fun _ => trivial) hs
        have hmark := (hmoves.placed_marked (reachable_placed hr) (reachable_marked hr)).2
        exact absurd (hmark.cpu _ th (congrArg some hcur.symm) hth) hne
      · exact absurd (dangling_of_timerProcessTick hs hd) (reachable_not_dangling hr)

/-- A time slice under RR with the quantum `q` is on: a tick can come and may preempt, and nobody has
asked for a reschedule. -/
structure Slicing (m : Machine) (q : ℕ) : Prop where
  scheduler : m.kernel.sched.gScheduler = .rr
  quantum : m.kernel.sched.gQuantum = q
  preemption : m.kernel.sched.gPreemption = true
  calm : m.kernel.sched.gNeedReschedule = false
  enabled : m.intEnabled = true

theorem Slicing.step (h : m.Slicing q) (hexec : m.exec .timer = .ok m') : m.Step .timer m' :=
  ⟨h.enabled, hexec⟩

/-- A tick behind which the counter is not above the quantum leaves the slice on. -/
theorem Slicing.tick (h : m.Slicing q) (hs : m.exec .timer = .ok m') (hle : u32Succ m.ticks ≤ q) :
    m'.Slicing q ∧ m'.slice = m.slice := by
  simp only [exec, bind_eq_ok, pure_eq_ok] at hs
  obtain ⟨s, hs₁, s', hs₂, rfl⟩ := hs
  obtain ⟨a, htick⟩ := timerProcessTick_ticked hs₁
  rw [ticks, Sched.ticks_eq htick.before, ← h.quantum] at hle
  have hcalm : s.gNeedReschedule = false := (htick.calm hle).trans h.calm
  -- so the interrupt returns to the thread that it has interrupted
  obtain rfl : s = s' := by simpa [intHandleReturn, hcalm, pure_eq_ok] using hs₂
  have hcur : s.gCurrent = m.current := htick.kept.gCurrent
  refine ⟨⟨htick.gScheduler.trans h.scheduler, htick.gQuantum.trans h.quantum,
    htick.gPreemption.trans h.preemption, hcalm, ?_⟩, congrArg List.length htick.kept.dispatched⟩
  have henabled := h.enabled
  simpa only [intEnabled, current, hcur] using henabled

end Machine

section Exceed

variable {m : Machine} {tr : List (Machine × Event)} {n q k : ℕ}

/-- A tick that comes while a slice is on. -/
theorem RoundRobin.append_timer (h : RoundRobin q n tr) (hm : m.Slicing q) :
    RoundRobin q n (tr ++ [(m, .timer)]) := by
  have hmem : ∀ p ∈ tr ++ [(m, Event.timer)], p ∈ tr ∨ p = (m, .timer) := by simp
  refine ⟨fun p hp => ?_, fun p hp => ?_, fun p hp => ?_⟩ <;> rcases hmem p hp with hp | rfl
  · exact h.scheduler p hp
  · exact fun _ => hm.scheduler
  · exact h.quantum p hp
  · exact fun _ => hm.quantum
  · exact h.preemption p hp
  · exact fun _ _ => hm.preemption

/-- The first slice begins when the menu has selected RR and the main thread has yielded. -/
theorem exists_run_selectRr (q : ℕ) : ∃ tr m, Run Machine.Step boot tr m ∧ m.Slicing q ∧
    m.slice = 1 ∧ RoundRobin q 1 tr ∧ charged 1 tr = 0 := by
  have hsome : (boot.runs (selectRr q)).any (fun r => ∀ p ∈ r.1, p.1.slice = 0) = true := rfl
  obtain ⟨⟨tr, m⟩, hr, hzero⟩ := (Option.any_eq_true _ _).mp hsome
  rw [decide_eq_true_iff] at hzero
  obtain rfl : Machine.after (selectRr q) = m := by simp [Machine.after, hr]
  -- its number has not come up before
  have hne : ∀ p ∈ tr, p.1.slice ≠ 1 := fun p hp => by rw [hzero p hp]; exact zero_ne_one
  refine ⟨tr, _, Machine.run_of_runs hr, ⟨rfl, rfl, rfl, rfl, rfl⟩, rfl,
    ⟨fun p hp hn => absurd hn (hne p hp), fun p hp hn => absurd hn (hne p hp),
      fun p hp hn => absurd hn (hne p hp)⟩, ?_⟩
  exact List.countP_eq_zero.mpr fun p hp => by simp [hne p hp]

/-- As long as the counter is not above the quantum, tick after tick is charged to that slice. -/
theorem exists_run_charged (hq : q < 2 ^ 31) (hk : k ≤ q) :
    ∃ tr m, Run Machine.Step boot tr m ∧ m.Slicing q ∧ m.slice = 1 ∧ RoundRobin q 1 tr ∧
      charged 1 tr = k := by
  induction k with
  | zero => exact exists_run_selectRr q
  | succ k ih =>
    obtain ⟨tr, m, hrun, hslicing, hslice, hrr, hcharged⟩ := ih (by omega)
    obtain ⟨m', hexec⟩ := Machine.exec_timer_isOk hrun.reachable
    have hticks : u32Succ m.ticks = k + 1 := by
      rw [ticks_eq_charged hrun, hslice, hcharged, u32Succ]
      omega
    obtain ⟨hslicing', hslice'⟩ := hslicing.tick hexec (hticks ▸ hk)
    refine ⟨_, m', hrun.snoc (hslicing.step hexec), hslicing', hslice'.trans hslice,
      hrr.append_timer hslicing, ?_⟩
    rw [charged_append_timer hslice, hcharged]

end Exceed

/-- Whatever the quantum `q`: every dispatch starts with the counter at zero, and a slice under RR is
charged `q + 1` ticks at most. But some run charges that many to a slice, so it is not true of all
runs that their slices are charged `q` ticks at most. -/
theorem timeSlices_exceed {q : ℕ} (hq : q < 2 ^ 31) :
    (∀ tr m, Run Machine.Step boot tr m →
      StartsAtZero tr ∧ ∀ n, RoundRobin q n tr → charged n tr ≤ q + 1) ∧
    (∃ tr m n, Run Machine.Step boot tr m ∧ RoundRobin q n tr ∧ charged n tr = q + 1) ∧
    ¬∀ tr m, Run Machine.Step boot tr m →
      StartsAtZero tr ∧ ∀ n, RoundRobin q n tr → charged n tr ≤ q := by
  have hexceeds : ∃ tr m n, Run Machine.Step boot tr m ∧ RoundRobin q n tr ∧
      charged n tr = q + 1 := by
    obtain ⟨tr, m, hrun, hslicing, hslice, hrr, hcharged⟩ := exists_run_charged hq le_rfl
    -- the tick with which the counter passes the quantum is charged to the slice too
    obtain ⟨m', hexec⟩ := Machine.exec_timer_isOk hrun.reachable
    refine ⟨_, m', 1, hrun.snoc (hslicing.step hexec), hrr.append_timer hslicing, ?_⟩
    rw [charged_append_timer hslice, hcharged]
  refine ⟨fun tr m h => ⟨startsAtZero_of_run h, fun n hrr => (charged_le_succ h hq hrr).1⟩,
    hexceeds, fun hall => ?_⟩
  obtain ⟨tr, m, n, hrun, hrr, hcharged⟩ := hexceeds
  have hle := (hall tr m hrun).2 n hrr
  omega

/-- The law above for the quantum of one tick and for the largest one. -/
theorem timeSlices_exceed_quanta :
    (∃ tr m n, Run Machine.Step boot tr m ∧ RoundRobin 1 n tr ∧ charged n tr = 2) ∧
      ∃ tr m n, Run Machine.Step boot tr m ∧ RoundRobin (2 ^ 31 - 1) n tr ∧
        charged n tr = 2 ^ 31 :=
  ⟨(timeSlices_exceed (q := 1) (by decide)).2.1,
    (timeSlices_exceed (q := 2 ^ 31 - 1) (by decide)).2.1⟩

/-- Two ticks in a row: the idle thread is switched out behind the second one only, although the
quantum is one tick. -/
theorem not_timeSlices_twoTicks :
    ∃ tr m, Run Machine.Step boot tr m ∧ RoundRobin 1 1 tr ∧ charged 1 tr = 2 ∧ m.slice = 2 ∧
      ¬∀ n, RoundRobin 1 n tr → charged n tr ≤ 1 := by
  have hsome : (boot.runs (selectRr 1 ++ [.timer, .timer])).any fun r =>
      RoundRobin 1 1 r.1 ∧ charged 1 r.1 = 2 ∧ r.2.slice = 2 := by decide
  obtain ⟨⟨tr, m⟩, hr, hend⟩ := (Option.any_eq_true _ _).mp hsome
  rw [decide_eq_true_iff] at hend
  obtain ⟨hrr, hcharged, hslice⟩ := hend
  refine ⟨tr, m, Machine.run_of_runs hr, hrr, hcharged, hslice, fun hle => ?_⟩
  have hone : charged 1 tr ≤ 1 := hle 1 hrr
  rw [show charged 1 tr = 2 from hcharged] at hone
  exact absurd hone (by decide)

end GeekOS
