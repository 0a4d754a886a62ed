import GeekOS.Kernel.Accounts
import GeekOS.Kernel.Simulation

/-!
# The statistics of a simulation

`wait_for_children` computes the statistics of a child from its times. The arrival is stored when
the thread of the job is made, the first response by the job, the running time by the timer
interrupt, which charges a tick to whoever is current, and the termination by `thread_exit`.

* `calculateSimulationStat`: the functions of `stat.c`;
* `JobTimes`: the times of a job are in order, in every state of a run in which the clock does not
  wrap;
* `running_of_run`: a `busy_wait` whose end the clock can show is charged a tick at least, as long
  as no key takes the CPU from it;
* `statistics_inOrder`: the times that `wait_for_children` reads are in order, and its assertions
  hold.
-/

namespace GeekOS

open Result TransitionSystem

/-! ## `stat.c` -/

/-- The difference of two `u32_t`. -/
def u32Sub (a b : ℕ) : ℕ := (a + 2 ^ 32 - b) % 2 ^ 32

/-- The functions of `stat.c` that assert something. -/
inductive StatAssertion
  | waitTime | turnaroundTime | responseTime
  deriving DecidableEq, Repr

/-- `struct simulation_stat`. -/
structure SimulationStat where
  pid : ℕ
  wait : ℕ
  response : ℕ
  turnaround : ℕ
  deriving DecidableEq, Repr

/-- `calculate_wait_time`. -/
def calculateWaitTime (time : TimeStat) : Except StatAssertion ℕ := do
  require (time.termination ≠ 0 ∧ time.arrival ≠ 0 ∧ time.running ≠ 0) .waitTime
  pure (u32Sub (u32Sub time.termination time.arrival) time.running)

/-- `calculate_turnaround_time`. -/
def calculateTurnaroundTime (time : TimeStat) : Except StatAssertion ℕ := do
  require (time.termination ≠ 0 ∧ time.arrival ≠ 0) .turnaroundTime
  pure (u32Sub time.termination time.arrival)

/-- `calculate_response_time`. -/
def calculateResponseTime (time : TimeStat) : Except StatAssertion ℕ := do
  require (time.firstResponse ≠ 0 ∧ time.arrival ≠ 0) .responseTime
  pure (u32Sub time.firstResponse time.arrival)

/-- `calculate_simulation_stat`. -/
def calculateSimulationStat (time : TimeStat) (pid : ℕ) :
    Except StatAssertion SimulationStat := do
  let wait ← calculateWaitTime time
  let response ← calculateResponseTime time
  let turnaround ← calculateTurnaroundTime time
  pure { pid, wait, response, turnaround }

theorem u32Sub_eq {a b : ℕ} (hb : b ≤ a) (ha : a < 2 ^ 32) : u32Sub a b = a - b := by
  unfold u32Sub
  omega

/-! ## Times in order -/

/-- The times of a job that has arrived by `now`, as they must be for the statistics. -/
structure TimeStat.InOrder (time : TimeStat) (now : ℕ) : Prop where
  arrival : 1 ≤ time.arrival
  running : time.arrival + time.running ≤ now
  response : time.firstResponse ≠ 0 → time.arrival ≤ time.firstResponse
  responded : time.firstResponse ≤ now

/-- The times of a thread are in order, and if it has ended, they were so when it ended. -/
structure JobTimes (s : Sched) (t : ThreadId) : Prop where
  record : (s.account t).isSome = true
  inOrder : (s.time t).InOrder s.gNumticks
  termination : (s.time t).termination ≤ s.gNumticks
  ended : s.Ended t → (s.time t).InOrder (s.time t).termination

/-- The statistics computed from times in order: no assertion fails and nothing underflows. -/
theorem calculateSimulationStat_eq_ok {time : TimeStat} (h : time.InOrder time.termination)
    (hterm : time.termination < 2 ^ 32) (hresp : time.firstResponse ≠ 0)
    (hrun : 1 ≤ time.running) (pid : ℕ) : calculateSimulationStat time pid = .ok
      { pid
        wait := time.termination - time.arrival - time.running
        response := time.firstResponse - time.arrival
        turnaround := time.termination - time.arrival } := by
  obtain ⟨harr, hrunning, hresponse, hresponded⟩ := h
  have hle := hresponse hresp
  have hassert : time.termination ≠ 0 ∧ time.arrival ≠ 0 ∧ time.running ≠ 0 := by omega
  rw [calculateSimulationStat, calculateWaitTime, calculateResponseTime, calculateTurnaroundTime,
    require, if_pos hassert, require, if_pos ⟨hresp, hassert.2.1⟩, require,
    if_pos ⟨hassert.1, hassert.2.1⟩, u32Sub_eq (by omega) hterm, u32Sub_eq (by omega) (by omega),
    u32Sub_eq hle (by omega)]
  rfl

section Step

variable {s s' : Sched} {t : ThreadId} {a : Account}

/-- The times stay in order through a booking, which stores no running time, and a first response
is not forgotten. -/
theorem JobTimes.booking (h : JobTimes s t) (hb : s.Booking s') (ht : t ≠ s.nextThread)
    (hcur : ¬s.Ended s.gCurrent) : JobTimes s' t ∧ (s'.time t).running = (s.time t).running ∧
      ((s.time t).firstResponse ≠ 0 → (s'.time t).firstResponse ≠ 0) := by
  obtain ⟨harr, hrunning, hresponse, hresponded⟩ := h.inOrder
  have hrec := hb.isSome h.record
  have hnow := hb.numticks
  cases hb.time ht with
  | same heq hended =>
    refine ⟨⟨hrec, ?_, ?_, fun hu => ?_⟩, by rw [heq], by rw [heq]; exact id⟩
    · rw [heq, hnow]
      exact h.inOrder
    · rw [heq, hnow]
      exact h.termination
    · rw [heq]
      exact h.ended (hended hu)
  | responded hcur' heq hended =>
    subst hcur'
    -- the time stored now is not before the arrival, and a thread on the CPU has not ended
    refine ⟨⟨hrec, ?_, ?_, fun hu => absurd (hended hu) hcur⟩, by rw [heq], fun _ => ?_⟩
    · rw [heq, hnow]
      exact ⟨harr, hrunning, fun _ => by dsimp only; omega, le_rfl⟩
    · rw [heq, hnow]
      exact h.termination
    · rw [heq]
      dsimp only
      omega
  | exited hcur' heq =>
    subst hcur'
    -- the termination stored now is what the clock shows, by which the times are in order
    have horder : (s'.time s.gCurrent).InOrder s.gNumticks := by
      rw [heq]
      exact ⟨harr, hrunning, hresponse, hresponded⟩
    refine ⟨⟨hrec, by rwa [hnow], by rw [heq, hnow], fun _ => ?_⟩, by rw [heq],
      by rw [heq]; exact id⟩
    rw [heq] at horder ⊢
    exact horder

/-- They stay in order through a tick, unless the clock wraps. -/
theorem JobTimes.ticked (h : JobTimes s t) (htick : s.Ticked s' a) (hcur : ¬s.Ended s.gCurrent)
    (hwrap : s.gNumticks + 1 < 2 ^ 32) :
    JobTimes s' t ∧
      (s'.time t).running = (s.time t).running + (if t = s.gCurrent then 1 else 0) ∧
      (s'.time t).firstResponse = (s.time t).firstResponse := by
  obtain ⟨harr, hrunning, hresponse, hresponded⟩ := h.inOrder
  have hrec := Sched.isSome_update h.record htick.account
  have hnow : s'.gNumticks = s.gNumticks + 1 := by
    rw [htick.numticks, u32Succ, Nat.mod_eq_of_lt hwrap]
  have htime := htick.time (t := t)
  by_cases ht : t = s.gCurrent
  · subst ht
    -- the running time is at most what the clock shows, so it does not wrap either
    have hrun : u32Succ (s.time s.gCurrent).running = (s.time s.gCurrent).running + 1 :=
      Nat.mod_eq_of_lt (by omega)
    rw [if_pos rfl, hrun] at htime
    rw [if_pos rfl, htime]
    refine ⟨⟨hrec, ?_, ?_, fun hu => absurd (htick.ended _ hu) hcur⟩, rfl, rfl⟩
    · rw [htime, hnow]
      exact ⟨harr, by dsimp only; omega, hresponse, by dsimp only; omega⟩
    · rw [htime, hnow]
      exact h.termination.trans (Nat.le_succ _)
  · rw [if_neg ht] at htime
    rw [if_neg ht, htime]
    refine ⟨⟨hrec, ?_, ?_, fun hu => ?_⟩, rfl, rfl⟩
    · rw [htime, hnow]
      exact ⟨harr, by omega, hresponse, by omega⟩
    · rw [htime, hnow]
      exact h.termination.trans (Nat.le_succ _)
    · rw [htime]
      exact h.ended (htick.ended _ hu)

end Step

namespace Machine

variable {m m' : Machine} {e : Event} {t : ThreadId}

/-- `thread->process->time`. -/
abbrev time (m : Machine) (t : ThreadId) : TimeStat := m.kernel.sched.time t

/-- `g_numticks`. -/
abbrev now (m : Machine) : ℕ := m.kernel.sched.gNumticks

/-- The times of a job stay in order through a step behind which the clock has not wrapped. The
running time only grows, and does so when a tick finds the job on the CPU; a first response is not
forgotten. -/
theorem Step.jobTimes (hs : m.Step e m') (hr : Reachable Step boot m)
    (h : JobTimes m.kernel.sched t) (hwrap : e = .timer → m.now + 1 < 2 ^ 32) :
    JobTimes m'.kernel.sched t ∧ (m.time t).running ≤ (m'.time t).running ∧
      (e = .timer → m.current = t → 1 ≤ (m'.time t).running) ∧
      ((m.time t).firstResponse ≠ 0 → (m'.time t).firstResponse ≠ 0) := by
  have hcur := current_not_ended hr
  -- a thread with a record is not the one that is made next
  have hne : t ≠ m.kernel.sched.nextThread := by
    rintro rfl
    obtain ⟨a, ha⟩ := Option.isSome_iff_exists.mp h.record
    obtain ⟨th, hth, -⟩ := Option.map_eq_some_iff.mp ha
    exact absurd ((reachable_placed hr).lt_nextThread hth) (lt_irrefl _)
  by_cases he : e = .timer
  · subst he
    obtain ⟨s, a, htick, hbooking, -⟩ := exec_timer hs.2
    obtain ⟨h₁, hrun₁, hresp₁⟩ := h.ticked htick hcur (hwrap rfl)
    have hcur₁ : ¬s.Ended s.gCurrent := fun hend => by
      rw [htick.kept.gCurrent] at hend
      exact hcur (htick.ended _ hend)
    obtain ⟨h₂, hrun₂, hresp₂⟩ := h₁.booking hbooking (htick.nextThread ▸ hne) hcur₁
    rw [hrun₁] at hrun₂
    refine ⟨h₂, hrun₂ ▸ Nat.le_add_right _ _, fun _ ht => ?_, fun hzero => hresp₂ (hresp₁ ▸ hzero)⟩
    rw [if_pos ht.symm] at hrun₂
    exact hrun₂ ▸ Nat.le_add_left 1 _
  · obtain ⟨h₂, hrun₂, hresp₂⟩ := h.booking (exec_booking hs.2 he) hne hcur
    exact ⟨h₂, hrun₂.ge, fun htimer => absurd htimer he, hresp₂⟩

/-- The times of a job are in order when its thread has just been made, behind the first tick. -/
theorem Step.jobTimes_submission {job : Job} (hs : m.Step e m') (hr : Reachable Step boot m)
    (hsub : m.submission e = some (t, job)) (hclock : 1 ≤ m.now) :
    JobTimes m'.kernel.sched t := by
  obtain ⟨pid, priority, hcreate⟩ := exec_submission hsub hs.2
  obtain ⟨heff, -⟩ := threadCreateFromJob_effect hcreate
  obtain rfl : t = m.kernel.sched.nextThread := (threadCreateFromJob_eq_ok hcreate).1
  have hacc : m'.kernel.sched.account m.kernel.sched.nextThread =
      some ⟨0, { arrival := m.kernel.sched.gNumticks }⟩ := by
    rw [heff.account, Function.update_self]
  have htime := Sched.time_of_account hacc
  refine ⟨by rw [hacc]; rfl, ?_, ?_, fun hend => ?_⟩
  · rw [htime, heff.numticks]
    exact ⟨hclock, le_rfl, fun hne => absurd rfl hne, Nat.zero_le _⟩
  · rw [htime]
    exact Nat.zero_le _
  · -- the record is new, and it does not start with an end
    obtain ⟨th, hth, -⟩ := heff.ended_nil hend
    exact absurd ((reachable_placed hr).lt_nextThread hth) (lt_irrefl _)

/-! ## What a job does -/

/-- The thread is in `busy_wait` on the CPU, no tick has come since the call, and the end of the
wait lies ahead. -/
def Spins (m : Machine) (t : ThreadId) : Prop :=
  m.current = t ∧ ∃ ticks, m.now < (m.now + ticks) % 2 ^ 32 ∧
    (m.acts t = [.simulation (.busyWait ticks)] ∨
      m.acts t = [.simulation (.busyWaiting m.now ticks)])

/-- A thread in `busy_wait` stays there until a tick comes. -/
theorem Step.spins (hs : m.Step e m') (h : m.Spins t) (hkey : e.isKeyboard = false) :
    m'.Spins t ∨ e = .timer := by
  obtain ⟨rfl, ticks, hahead, hacts⟩ := h
  cases e with
  | call a =>
    have hnil := hs.1.1
    rcases hacts with hacts | hacts <;> simp [hacts] at hnil
  | timer => exact .inr rfl
  | keyboard keycode => simp [Event.isKeyboard] at hkey
  | resume memory =>
    left
    rcases hacts with hacts | hacts
    · obtain ⟨acts, k', hk, rfl⟩ := (exec_resume hacts).mp hs.2
      cases SimulationAct.run_step hk
      exact ⟨rfl, ticks, hahead, .inr (Function.update_self ..)⟩
    · obtain ⟨acts, k', hk, rfl⟩ := (exec_resume hacts).mp hs.2
      cases SimulationAct.run_step hk with
      | busyWaiting => exact ⟨rfl, ticks, hahead, .inr (Function.update_self ..)⟩
      | busyWaited hle => exact absurd hahead hle

/-- The call of `busy_wait`, if its end lies ahead. -/
theorem Step.spins_call {ticks : ℕ} (hs : m.Step (.call (.simulation (.busyWait ticks))) m')
    (hpos : 1 ≤ ticks) (hend : m.now + ticks < 2 ^ 32) : m'.Spins m.current := by
  obtain rfl := pure_eq_ok.mp hs.2
  refine ⟨rfl, ticks, ?_, .inl (Function.update_self ..)⟩
  change m.now < (m.now + ticks) % 2 ^ 32
  rw [Nat.mod_eq_of_lt hend]
  omega

/-- A pending `first_response` stays pending until it has stored the time. -/
theorem Step.responds (hs : m.Step e m') (hnow : m.now ≠ 0)
    (h : .simulation .firstResponse ∈ m.acts t) :
    .simulation .firstResponse ∈ m'.acts t ∨ (m'.time t).firstResponse ≠ 0 := by
  by_cases hcur : t = m.current
  swap
  · exact .inl (by rwa [exec_acts_of_ne hs.2 hcur])
  subst hcur
  cases e with
  | call a => exact absurd h (by rw [hs.1.1]; exact List.not_mem_nil)
  | timer => exact .inl (by rwa [(exec_interrupt hs.2 trivial).1])
  | keyboard keycode => exact .inl (by rwa [(exec_interrupt hs.2 trivial).1])
  | resume memory =>
    obtain ⟨a, rest, hacts⟩ := List.exists_cons_of_ne_nil (List.ne_nil_of_mem h)
    obtain ⟨acts, k', hk, rfl⟩ := (exec_resume hacts).mp hs.2
    rw [hacts, List.mem_cons] at h
    rcases h with rfl | h
    · right
      cases SimulationAct.run_step hk with
      | @firstResponse s hs' =>
      -- the clock is past the first tick, so the time that is stored is not zero
      obtain ⟨th, hth, rfl⟩ := firstResponse_eq_ok hs'
      have htime := Sched.time_update (t := m.current)
        (Sched.account_setThread m.kernel.sched m.kernel.sched.gCurrent { th with
          process := { th.process with time := { th.process.time with
            firstResponse := m.kernel.sched.gNumticks } } })
      rw [if_pos rfl] at htime
      change (Sched.time _ m.current).firstResponse ≠ 0
      rw [htime]
      exact hnow
    · left
      change _ ∈ Function.update m.acts m.current (acts ++ rest) m.current
      rw [Function.update_self]
      exact List.mem_append_right _ h

end Machine

/-! ## Runs -/

section Run

variable {m₁ m n : Machine} {t : ThreadId} {tr : List (Machine × Event)} {ticks : ℕ}

theorem jobTimes_of_run (hr : Reachable Machine.Step boot m₁) (hjob : JobTimes m₁.kernel.sched t)
    (h : Run Machine.Step m₁ tr m)
    (hwrap : ∀ p ∈ tr, p.2 = .timer → p.1.now + 1 < 2 ^ 32) : JobTimes m.kernel.sched t := by
  induction h with
  | nil => exact hjob
  | @snoc m m' tr e hrun hs ih =>
    have hlast : (m, e) ∈ tr ++ [(m, e)] := by simp
    have hprev := ih fun p hp => hwrap p (List.mem_append_left _ hp)
    exact (hs.jobTimes (hr.run hrun) hprev (hwrap _ hlast)).1

/-- The last step of a run in which the clock does not wrap, and what it does to the times. -/
theorem jobTimes_last {m' : Machine} {e : Event} (hr : Reachable Machine.Step boot m₁)
    (hjob : JobTimes m₁.kernel.sched t) (h : Run Machine.Step m₁ tr m) (hs : m.Step e m')
    (hwrap : ∀ p ∈ tr ++ [(m, e)], p.2 = .timer → p.1.now + 1 < 2 ^ 32) :
    (∀ p ∈ tr, p.2 = .timer → p.1.now + 1 < 2 ^ 32) ∧ JobTimes m.kernel.sched t ∧
      (m.time t).running ≤ (m'.time t).running ∧
      (e = .timer → m.current = t → 1 ≤ (m'.time t).running) ∧
      ((m.time t).firstResponse ≠ 0 → (m'.time t).firstResponse ≠ 0) := by
  have hbefore : ∀ p ∈ tr, p.2 = .timer → p.1.now + 1 < 2 ^ 32 :=
    fun p hp => hwrap p (List.mem_append_left _ hp)
  have htimes := jobTimes_of_run hr hjob h hbefore
  exact ⟨hbefore, htimes, (hs.jobTimes (hr.run h) htimes (hwrap (m, e) (by simp))).2⟩

/-- A job that has called `busy_wait` has been charged a tick, or it is still waiting for it on
the CPU. -/
theorem running_of_run (hr : Reachable Machine.Step boot m₁) (hjob : JobTimes m₁.kernel.sched t)
    (h : Run Machine.Step m₁ tr m) (hmasked : ∀ p ∈ tr, p.1.kernel.keybMasked = true)
    (hwrap : ∀ p ∈ tr, p.2 = .timer → p.1.now + 1 < 2 ^ 32)
    (hcall : (n, .call (.simulation (.busyWait ticks))) ∈ tr) (hn : n.current = t)
    (hpos : 1 ≤ ticks) (hend : n.now + ticks < 2 ^ 32) :
    1 ≤ (m.time t).running ∨ m.Spins t := by
  induction h with
  | nil => simp at hcall
  | @snoc m m' tr e hrun hs ih =>
    obtain ⟨hwrap', -, hgrow, htick, -⟩ := jobTimes_last hr hjob hrun hs hwrap
    have hkey : e.isKeyboard = false := by
      cases e with
      | keyboard keycode =>
        have hmask : m.kernel.keybMasked = true := hmasked (m, .keyboard keycode) (by simp)
        simp [hs.1.2] at hmask
      | _ => rfl
    rcases List.mem_append.mp hcall with hcall | hcall
    · -- what has been charged stays; a thread that still waits is charged the next tick
      rcases ih (fun p hp => hmasked p (List.mem_append_left _ hp)) hwrap' hcall with hpos | hspin
      · exact .inl (hpos.trans hgrow)
      · rcases hs.spins hspin hkey with hspin' | htimer
        · exact .inr hspin'
        · exact .inl (htick htimer hspin.1)
    · -- the call is the last step of the run
      obtain ⟨rfl, rfl⟩ := Prod.mk.inj (List.mem_singleton.mp hcall)
      exact .inr (hn ▸ hs.spins_call hpos hend)

/-- A job that has called `first_response` has stored the time, or is about to. -/
theorem responded_of_run (hr : Reachable Machine.Step boot m₁) (hjob : JobTimes m₁.kernel.sched t)
    (h : Run Machine.Step m₁ tr m) (hwrap : ∀ p ∈ tr, p.2 = .timer → p.1.now + 1 < 2 ^ 32)
    (hcall : (n, .call (.simulation .firstResponse)) ∈ tr) (hn : n.current = t) :
    .simulation .firstResponse ∈ m.acts t ∨ (m.time t).firstResponse ≠ 0 := by
  induction h with
  | nil => simp at hcall
  | @snoc m m' tr e hrun hs ih =>
    obtain ⟨hwrap', htimes, -, -, hkeep⟩ := jobTimes_last hr hjob hrun hs hwrap
    rcases List.mem_append.mp hcall with hcall | hcall
    · rcases ih hwrap' hcall with hpending | hstored
      · have harr := htimes.inOrder.arrival
        have hrunning := htimes.inOrder.running
        exact hs.responds (by change m.kernel.sched.gNumticks ≠ 0; omega) hpending
      · exact .inr (hkeep hstored)
    · obtain ⟨rfl, rfl⟩ := Prod.mk.inj (List.mem_singleton.mp hcall)
      obtain rfl := pure_eq_ok.mp hs.2
      left
      change _ ∈ Function.update n.acts n.current _ t
      rw [hn, Function.update_self]
      exact List.mem_singleton_self _

end Run

/-! ## What the parent reads -/

/-- Of each step of a run: the thread on the CPU, the event, and what the clock shows. -/
def timeline (tr : List (Machine × Event)) : List (ThreadId × Event × ℕ) :=
  tr.map fun p => (p.1.current, p.2, p.1.now)

/-- The parent is about to read the record of a child in `wait_for_children`, behind its
`thread_wait_until`. -/
def Machine.ReadsRecord (m : Machine) (child : ThreadId) (p : Process) : Prop :=
  (m.acts m.current).head? = some (.thread (.joinTest child .waitForChildren)) ∧
    threadNotRunning child m.kernel.sched = .ok true ∧
    m.kernel.sched.derefProcess child = .ok p

instance (m : Machine) (child : ThreadId) (p : Process) : Decidable (m.ReadsRecord child p) :=
  inferInstanceAs (Decidable (_ ∧ _ ∧ _))

section Run

variable {m₁ m : Machine} {t : ThreadId} {tr : List (Machine × Event)} {ticks c₁ c₂ : ℕ}

theorem mem_timeline {e : Event} {c : ℕ} (h : (t, e, c) ∈ timeline tr) :
    ∃ n, (n, e) ∈ tr ∧ n.current = t ∧ n.now = c := by
  obtain ⟨⟨n, e'⟩, hmem, heq⟩ := List.mem_map.mp h
  simp only [Prod.mk.injEq] at heq
  obtain ⟨hcur, rfl, hnow⟩ := heq
  exact ⟨n, hmem, hcur, hnow⟩

/-- A job that calls `busy_wait` has returned from the `first_response` it called before. -/
theorem firstResponse_of_run (hr : Reachable Machine.Step boot m₁)
    (hjob : JobTimes m₁.kernel.sched t) (h : Run Machine.Step m₁ tr m)
    (hwrap : ∀ p ∈ tr, p.2 = .timer → p.1.now + 1 < 2 ^ 32)
    (hcalls : List.Sublist [(t, .call (.simulation .firstResponse), c₁),
      (t, .call (.simulation (.busyWait ticks)), c₂)] (timeline tr)) :
    (m.time t).firstResponse ≠ 0 := by
  induction h with
  | nil => simp [timeline] at hcalls
  | @snoc m m' tr e hrun hs ih =>
    obtain ⟨hwrap', -, -, -, hkeep⟩ := jobTimes_last hr hjob hrun hs hwrap
    rw [timeline, List.map_append, List.sublist_append_iff] at hcalls
    obtain ⟨l₁, l₂, heq, h₁, h₂⟩ := hcalls
    rcases List.sublist_singleton.mp h₂ with rfl | rfl
    · rw [List.append_nil] at heq
      exact hkeep (ih hwrap' (heq ▸ h₁))
    · -- the call of `busy_wait` is the last step, and no act is pending in front of it
      have hsplit := List.append_inj' (show [_] ++ [_] = _ from heq) rfl
      obtain ⟨rfl, hpair⟩ := hsplit
      simp only [List.cons.injEq, Prod.mk.injEq, and_true] at hpair
      obtain ⟨hcur, rfl, -⟩ := hpair
      obtain ⟨n, hmem, hn, -⟩ := mem_timeline (List.singleton_sublist.mp h₁)
      rcases responded_of_run hr hjob hrun hwrap' hmem hn with hpending | hstored
      · rw [hcur, hs.1.1] at hpending
        exact absurd hpending List.not_mem_nil
      · exact hkeep hstored

end Run

/-- A job is submitted behind the first tick, and runs under any scheduler and with any ticks and
switches, while the clock does not wrap and the keyboard interrupt is masked. It calls
`first_response` and then `busy_wait`, for a tick at least and so that the clock can show the end
of the wait. When its parent reads the record in `wait_for_children`, the times are in order, and
the statistics are computed without a failed assertion or an underflow. -/
theorem statistics_inOrder {m₀ m₁ m : Machine} {e : Event} {t : ThreadId} {job : Job}
    {tr : List (Machine × Event)} {ticks c₁ c₂ : ℕ} {p : Process}
    (hr : Reachable Machine.Step boot m₀) (hsub : m₀.submission e = some (t, job))
    (hclock : 1 ≤ m₀.now) (hs : m₀.Step e m₁) (h : Run Machine.Step m₁ tr m)
    (hmasked : ∀ p ∈ tr, p.1.kernel.keybMasked = true)
    (hwrap : ∀ p ∈ tr, p.2 = .timer → p.1.now + 1 < 2 ^ 32)
    (hcalls : List.Sublist [(t, .call (.simulation .firstResponse), c₁),
      (t, .call (.simulation (.busyWait ticks)), c₂)] (timeline tr))
    (hpos : 1 ≤ ticks) (hend : c₂ + ticks < 2 ^ 32) (hread : m.ReadsRecord t p) :
    p.time.arrival ≤ p.time.firstResponse ∧ p.time.firstResponse ≤ p.time.termination ∧
      1 ≤ p.time.running ∧ p.time.running ≤ p.time.termination - p.time.arrival ∧
      ∃ stat, calculateSimulationStat p.time p.pid = .ok stat ∧
        stat.wait = p.time.termination - p.time.arrival - p.time.running ∧
        stat.turnaround = stat.wait + p.time.running := by
  obtain ⟨-, hnot, hp⟩ := hread
  have hr₁ := hr.tail hs
  have hjob := hs.jobTimes_submission hr hsub hclock
  have htimes := jobTimes_of_run hr₁ hjob h hwrap
  -- the record that is read is the one of the job, which has ended
  obtain ⟨th, hth, -, -, -, hended⟩ := threadNotRunning_eq_ok.mp hnot
  obtain ⟨th', hth', -, -, rfl⟩ := Sched.derefProcess_eq_ok.mp hp
  obtain rfl := Option.some.inj (hth.symm.trans hth')
  have htime : m.time t = th.process.time :=
    Sched.time_of_account (Sched.account_of_threads hth)
  have hend' : m.kernel.sched.Ended t := ⟨th, hth, of_decide_eq_true hended.symm⟩
  have horder : (m.time t).InOrder (m.time t).termination := htimes.ended hend'
  have hterm : (m.time t).termination < 2 ^ 32 :=
    htimes.termination.trans_lt (numticks_lt (hr₁.run h))
  have hresp := firstResponse_of_run hr₁ hjob h hwrap hcalls
  obtain ⟨n, hmem, hn, hnow⟩ := mem_timeline (hcalls.subset (List.mem_cons_of_mem _
    List.mem_cons_self))
  have hrun : 1 ≤ (m.time t).running := by
    rcases running_of_run hr₁ hjob h hmasked hwrap hmem hn hpos (hnow ▸ hend) with hrun | hspin
    · exact hrun
    · -- a job that has ended is not on the CPU
      exact absurd (hspin.1 ▸ hend') (current_not_ended (hr₁.run h))
  rw [← htime]
  have hle := horder.response hresp
  have hrunning := horder.running
  refine ⟨hle, horder.responded, hrun, by omega, _,
    calculateSimulationStat_eq_ok horder hterm hresp hrun _, rfl, ?_⟩
  dsimp only
  omega

/-- Behind the first timer tick the menu calls `run_simulation` with one job, and the main thread has
come to the `thread_make_new` for it. -/
def callOneJob : List Event :=
  .timer :: Machine.call (.simulation (.runSimulation [⟨5, 1⟩])) 6

/-- The main thread waits for the job, which calls `first_response` and then waits for `ticks`
ticks. The events come while it waits; behind them it exits, and the main thread finds it so. -/
def runOneJob (ticks : ℕ) (events : List Event) : List Event :=
  Machine.resume 5 ++ Machine.call (.simulation .firstResponse) 1 ++
    Machine.call (.simulation (.busyWait ticks)) 1 ++ events ++ Machine.resume 1 ++
    Machine.call (.thread (.exit 0)) 3

/-- The main thread has submitted the job. -/
def submittedOneJob : Machine := Machine.after (callOneJob ++ Machine.resume 1)

theorem callOneJob_submission :
    (Machine.after callOneJob).submission (.resume .available) = some (3, ⟨5, 1⟩) := by
  decide

theorem callOneJob_step : (Machine.after callOneJob).Step (.resume .available) submittedOneJob :=
  ⟨by decide, rfl⟩

/-- The law above where one tick comes, while the job waits for it. -/
theorem statistics_inOrder_oneTick :
    ∃ tr m p stat, Run Machine.Step submittedOneJob tr m ∧ m.ReadsRecord 3 p ∧
      p.time.running = 1 ∧ p.time.termination = 2 ∧
      calculateSimulationStat p.time p.pid = .ok stat ∧
      stat.turnaround = stat.wait + p.time.running := by
  have hsome : (submittedOneJob.runs (runOneJob 1 [.timer])).any fun r =>
      (∀ p ∈ r.1, p.1.kernel.keybMasked = true) ∧
        (∀ p ∈ r.1, p.2 = .timer → p.1.now + 1 < 2 ^ 32) ∧
        List.Sublist [(3, .call (.simulation .firstResponse), 1),
          (3, .call (.simulation (.busyWait 1)), 1)] (timeline r.1) ∧
        r.2.ReadsRecord 3 { pid := 3, priority := 100, time := ⟨1, 1, 1, 2⟩ } := by decide
  obtain ⟨⟨tr, m⟩, hr, hend⟩ := (Option.any_eq_true _ _).mp hsome
  rw [decide_eq_true_iff] at hend
  obtain ⟨hmasked, hwrap, hcalls, hread⟩ := hend
  have hrun := Machine.run_of_runs hr
  obtain ⟨-, -, -, -, stat, hstat, -, hsum⟩ :=
    statistics_inOrder (Machine.reachable_after (by decide)) callOneJob_submission (by decide)
      callOneJob_step hrun hmasked hwrap hcalls (by decide) (by decide) hread
  exact ⟨tr, m, _, stat, hrun, hread, rfl, rfl, hstat, hsum⟩

/-- The job waits for `2 ^ 32 - 1` ticks behind the first one. In `busy_wait` the end of the wait
is computed as a `u32_t`, which is zero here, so that the job does not wait at all. No tick is
charged to it, and `calculate_wait_time` fails, although the clock has not wrapped. -/
theorem not_statistics_endWraps :
    ∃ tr m p, Reachable Machine.Step boot (Machine.after callOneJob) ∧
      (Machine.after callOneJob).submission (.resume .available) = some (3, ⟨5, 1⟩) ∧
      1 ≤ (Machine.after callOneJob).now ∧
      (Machine.after callOneJob).Step (.resume .available) submittedOneJob ∧
      Run Machine.Step submittedOneJob tr m ∧ (∀ p ∈ tr, p.1.kernel.keybMasked = true) ∧
      (∀ p ∈ tr, p.2 ≠ .timer) ∧
      List.Sublist [(3, .call (.simulation .firstResponse), 1),
        (3, .call (.simulation (.busyWait (2 ^ 32 - 1))), 1)] (timeline tr) ∧
      m.ReadsRecord 3 p ∧ p.time.running = 0 ∧
      calculateSimulationStat p.time p.pid = .error .waitTime := by
  have hsome : (submittedOneJob.runs (runOneJob (2 ^ 32 - 1) [])).any fun r =>
      (∀ p ∈ r.1, p.1.kernel.keybMasked = true) ∧ (∀ p ∈ r.1, p.2 ≠ .timer) ∧
        List.Sublist [(3, .call (.simulation .firstResponse), 1),
          (3, .call (.simulation (.busyWait (2 ^ 32 - 1))), 1)] (timeline r.1) ∧
        r.2.ReadsRecord 3 { pid := 3, priority := 100, time := ⟨1, 1, 0, 1⟩ } := by decide
  obtain ⟨⟨tr, m⟩, hr, hend⟩ := (Option.any_eq_true _ _).mp hsome
  rw [decide_eq_true_iff] at hend
  obtain ⟨hmasked, htimer, hcalls, hread⟩ := hend
  exact ⟨tr, m, _, Machine.reachable_after (by decide), callOneJob_submission, by decide,
    callOneJob_step, Machine.run_of_runs hr, hmasked, htimer, hcalls, hread, rfl, rfl⟩

end GeekOS
