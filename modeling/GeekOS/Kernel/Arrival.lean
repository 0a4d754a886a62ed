import Mathlib.Data.Nat.ModEq
import GeekOS.Kernel.Accounts
import GeekOS.Kernel.Simulation

/-!
# The arrival times of a simulation

`long_term_scheduler` makes the threads of a list of jobs one after the other, with interrupts
enabled in between, and `thread_make_new` stores the arrival time of each. The module follows one
call, up to the `merge_new_with_runnable` that makes the threads ready.

* `arrivals_of_run`: the arrival time of a job is the tick counter at its creation;
* `sameArrival_iff`: all jobs of the call have the same arrival time if and only if no timer tick
  comes between two creations, but for multiples of `2 ^ 32` of them.
-/

namespace GeekOS

open Result TransitionSystem

/-- The acts of `long_term_scheduler`. -/
def Act.inLongTermScheduler : Act → Bool
  | .simulation (.longTermScheduler _ _ _) | .thread .merge => true
  | _ => false

namespace Machine

/-- The thread is inside `long_term_scheduler`. -/
def InLongTermScheduler (m : Machine) (P : ThreadId) : Prop :=
  (m.acts P).head?.any Act.inLongTermScheduler = true

instance (m : Machine) (P : ThreadId) : Decidable (m.InLongTermScheduler P) :=
  inferInstanceAs (Decidable (_ = _))

/-- The thread creates the thread of a job by the event. -/
def CreatesJob (m : Machine) (P : ThreadId) (e : Event) : Prop :=
  m.current = P ∧ (m.submission e).isSome = true

instance (m : Machine) (P : ThreadId) (e : Event) : Decidable (m.CreatesJob P e) :=
  inferInstanceAs (Decidable (_ ∧ _))

end Machine

/-- The timer ticks of a run. -/
def timerTicks (tr : List (Machine × Event)) : ℕ := tr.countP fun p => p.2 = .timer

/-- For each job that `P` creates on the run, the timer ticks that have come before, starting from
`n`. -/
def creationTicks (P : ThreadId) : ℕ → List (Machine × Event) → List ℕ
  | _, [] => []
  | n, p :: tr =>
      (if p.1.CreatesJob P p.2 then [n] else []) ++
        creationTicks P (if p.2 = .timer then n + 1 else n) tr

section Ticks

variable {m : Machine} {e : Event} {tr : List (Machine × Event)} {P : ThreadId} {n : ℕ}

theorem timerTicks_append : timerTicks (tr ++ [(m, e)]) =
    if e = .timer then timerTicks tr + 1 else timerTicks tr := by
  simp only [timerTicks, List.countP_append, List.countP_singleton, decide_eq_true_eq]
  split <;> rfl

theorem creationTicks_append : creationTicks P n (tr ++ [(m, e)]) =
    creationTicks P n tr ++ if m.CreatesJob P e then [n + timerTicks tr] else [] := by
  induction tr generalizing n with
  | nil => simp [creationTicks, timerTicks]
  | cons p tr ih =>
    have hticks : (if p.2 = .timer then n + 1 else n) + timerTicks tr =
        n + timerTicks (p :: tr) := by
      by_cases hp : p.2 = .timer
      · simp only [timerTicks, hp, List.countP_cons, if_true, decide_true]
        omega
      · simp [timerTicks, hp]
    rw [List.cons_append, creationTicks, creationTicks, ih, List.append_assoc, hticks]

end Ticks

/-! ## One step -/

section Step

variable {m m' : Machine} {e : Event} {P : ThreadId} {left : List Job} {threads : List ThreadId}
  {rest : List Act}

/-- Where `P` stands in `long_term_scheduler`, with the jobs left and the threads made so far. -/
inductive CallControl (left : List Job) (threads : List ThreadId) (rest : List Act) :
    List Act → Prop
  | submit {c : JobCreation} : CallControl left threads rest
      (.simulation (.longTermScheduler left threads c) :: rest)
  | merge (h : left = []) : CallControl left threads rest
      (.thread .merge :: .thread (.waitForChildren threads) :: rest)

/-- A step by which the thread creates nothing: another thread has the CPU, or it is interrupted. -/
theorem not_createsJob (h : m.current = P → e.IsInterrupt) : ¬m.CreatesJob P e := by
  rintro ⟨hcur, hsome⟩
  have hint := h hcur
  cases e with
  | call a => exact hint
  | resume memory => exact hint
  | timer => simp [Machine.submission] at hsome
  | keyboard keycode => simp [Machine.submission] at hsome

/-- One step of the system while `P` is in `long_term_scheduler`: its control stays, or it has made
the thread of the next job, which arrives now. -/
theorem Machine.Step.callControl (hs : m.Step e m')
    (hctl : CallControl left threads rest (m.acts P)) (hin : m'.InLongTermScheduler P) :
    CallControl left threads rest (m'.acts P) ∧ ¬m.CreatesJob P e ∨
      ∃ job left', left = job :: left' ∧ m.CreatesJob P e ∧ e ≠ .timer ∧
        CallControl left' (threads ++ [m.kernel.sched.nextThread]) rest (m'.acts P) ∧
        m'.kernel.sched.arrival m.kernel.sched.nextThread = some m.kernel.sched.gNumticks := by
  by_cases hcur : m.current = P
  swap
  · refine .inl ⟨?_, not_createsJob fun h => absurd h hcur⟩
    rwa [Machine.exec_acts_of_ne hs.2 fun h => hcur h.symm]
  subst hcur
  cases e with
  | call a =>
    rw [hs.1.1] at hctl
    cases hctl
  | timer =>
    refine .inl ⟨?_, not_createsJob fun _ => trivial⟩
    rwa [(Machine.exec_interrupt hs.2 trivial).1]
  | keyboard keycode =>
    refine .inl ⟨?_, not_createsJob fun _ => trivial⟩
    rwa [(Machine.exec_interrupt hs.2 trivial).1]
  | resume memory =>
    generalize hacts : m.acts m.current = l at hctl
    obtain ⟨a, rest', rfl⟩ : ∃ a rest', l = a :: rest' := by cases hctl <;> exact ⟨_, _, rfl⟩
    obtain ⟨acts, k', hk, hm'⟩ := (Machine.exec_resume hacts).mp hs.2
    have hacts' : m'.acts m.current = acts ++ rest' := by
      rw [hm']
      exact Function.update_self ..
    have hkernel : m'.kernel = k' := by rw [hm']
    rw [hacts', hkernel]
    cases hctl with
    | merge h =>
      -- this act leaves the function
      cases ThreadAct.run_step hk
      simp [Machine.InLongTermScheduler, hacts', Act.inLongTermScheduler] at hin
    | @submit c =>
      cases left with
      | nil =>
        cases SimulationAct.run_step hk
        refine .inl ⟨.merge rfl, fun hc => ?_⟩
        -- behind the last job the function goes on to the merge, and creates nothing
        simp [Machine.CreatesJob, Machine.submission, hacts] at hc
      | cons job left' =>
        cases SimulationAct.run_step hk with
        | submit hj =>
        cases hj with
        | asleep | alloc | pid | priority =>
          -- the function goes on with the thread for the same job
          refine .inl ⟨.submit, fun hc => ?_⟩
          simp [Machine.CreatesJob, Machine.submission, hacts] at hc
        | made hs' =>
          obtain rfl := (threadCreateFromJob_eq_ok hs').1
          -- the thread of the job has been made, and its arrival is what the clock shows
          refine .inr ⟨job, left', rfl, ⟨rfl, by simp [Machine.submission, hacts]⟩, by simp,
            .submit, ?_⟩
          rw [Sched.arrival, (threadCreateFromJob_effect hs').1.account, Function.update_self]
          rfl

end Step

/-! ## The call -/

section Call

variable {m₀ m m' : Machine} {e : Event} {P : ThreadId} {joblist : List Job}
  {threads : List ThreadId} {rest : List Act} {tr : List (Machine × Event)}

/-- The clock shows the ticks of the run. -/
theorem numticks_of_run (hr : Reachable Machine.Step boot m₀) (h : Run Machine.Step m₀ tr m) :
    m.kernel.sched.gNumticks = (m₀.kernel.sched.gNumticks + timerTicks tr) % 2 ^ 32 := by
  induction h with
  | nil => exact (Nat.mod_eq_of_lt (numticks_lt hr)).symm
  | snoc hrun hs ih =>
    rw [hs.numticks, timerTicks_append, ih]
    split
    · rw [u32Succ, Nat.mod_add_mod, Nat.add_assoc]
    · rfl

/-- A thread with an arrival time has a record. -/
theorem exists_record_of_arrival {s : Sched} {t : ThreadId} {n : ℕ} (h : s.arrival t = some n) :
    ∃ th, s.threads t = some th := by
  rw [Sched.arrival, Sched.account, Option.map_map, Option.map_eq_some_iff] at h
  obtain ⟨th, hth, -⟩ := h
  exact ⟨th, hth⟩

/-- Threads whose arrival times are known still have them if none that is known has changed. -/
theorem map_arrival_eq {s s' : Sched} {ticks : List ℕ} {f : ℕ → ℕ}
    (hmap : threads.map s.arrival = ticks.map fun n => some (f n))
    (hkeep : ∀ t n, s.arrival t = some n → s'.arrival t = some n) :
    threads.map s'.arrival = threads.map s.arrival := by
  refine List.map_congr_left fun t ht => ?_
  have harr : s.arrival t ∈ threads.map s.arrival := List.mem_map_of_mem ht
  rw [hmap] at harr
  obtain ⟨n, -, hn⟩ := List.mem_map.mp harr
  rw [← hn, hkeep t _ hn.symm]

/-- While `P` is in the function, the threads made so far have arrived when they were created. -/
theorem arrivals_of_run (hr : Reachable Machine.Step boot m₀)
    (hstart : m₀.acts P = .simulation (.longTermScheduler joblist [] .start) :: rest)
    (h : Run Machine.Step m₀ tr m) (hin : ∀ n ∈ visited tr m, n.InLongTermScheduler P) :
    ∃ left threads, CallControl left threads rest (m.acts P) ∧
      threads.length + left.length = joblist.length ∧
      threads.map m.kernel.sched.arrival = (creationTicks P 0 tr).map fun n =>
        some ((m₀.kernel.sched.gNumticks + n) % 2 ^ 32) := by
  induction h with
  | nil => exact ⟨joblist, [], hstart ▸ .submit, Nat.zero_add _, rfl⟩
  | @snoc m m' tr e hrun hs ih =>
    have hsub : ∀ n ∈ visited tr m, n.InLongTermScheduler P := fun n hn => by
      refine hin n ?_
      rw [visited, List.map_append, List.append_assoc]
      simp only [visited, List.mem_append, List.mem_singleton] at hn ⊢
      exact hn.imp_right fun hn => .inl (by simp [hn])
    obtain ⟨left, threads, hctl, hlen, hmap⟩ := ih hsub
    have hrm := hr.run hrun
    -- the threads made before keep their arrival times
    have hkeep : threads.map m'.kernel.sched.arrival = threads.map m.kernel.sched.arrival :=
      map_arrival_eq hmap fun t n hn => (hs.arrival hrm (exists_record_of_arrival hn)).trans hn
    rw [creationTicks_append]
    rcases hs.callControl hctl (hin m' (by simp [visited])) with
      ⟨hctl', hno⟩ | ⟨job, left', rfl, hcreates, -, hctl', harr⟩
    · refine ⟨left, threads, hctl', hlen, ?_⟩
      rw [if_neg hno, List.append_nil, hkeep, hmap]
    · refine ⟨left', _, hctl', ?_, ?_⟩
      · rw [List.length_append, List.length_singleton]
        rw [List.length_cons] at hlen
        omega
      · rw [if_pos hcreates, List.map_append, List.map_append, hkeep, hmap, List.map_singleton,
          harr, List.map_singleton, Nat.zero_add, numticks_of_run hr hrun]

/-- The arrival times stay, whatever comes next. -/
theorem arrival_of_run {t : ThreadId} {n : ℕ} (hr : Reachable Machine.Step boot m₀)
    (h : Run Machine.Step m₀ tr m) (ht : m₀.kernel.sched.arrival t = some n) :
    m.kernel.sched.arrival t = some n := by
  induction h with
  | nil => exact ht
  | snoc hrun hs ih =>
    rw [hs.arrival (hr.run hrun) (exists_record_of_arrival ih), ih]

end Call

/-- One value in all places of a list, read off another list with the same values. -/
theorem forall_mem_eq_iff {α β γ : Type*} {f : α → γ} {g : β → γ} {l : List α} {l' : List β}
    (h : l.map f = l'.map g) :
    (∀ a ∈ l, ∀ b ∈ l, f a = f b) ↔ ∀ a ∈ l', ∀ b ∈ l', g a = g b := by
  have hiff : (∀ x ∈ l.map f, ∀ y ∈ l.map f, x = y) ↔ ∀ x ∈ l'.map g, ∀ y ∈ l'.map g, x = y := by
    rw [h]
  simpa only [List.forall_mem_map] using hiff

/-- Any list of jobs, any scheduler, any interleaving: a call of `long_term_scheduler` makes one
thread for each job, and these threads have the same arrival time, when they become ready and ever
after, if and only if the numbers of timer ticks before their creations are equal modulo `2 ^ 32`. -/
theorem sameArrival_iff {m₀ m m' : Machine} {P : ThreadId} {joblist : List Job}
    {threads : List ThreadId} {rest rest' : List Act} {tr tr' : List (Machine × Event)}
    (hr : Reachable Machine.Step boot m₀)
    (hstart : m₀.acts P = .simulation (.longTermScheduler joblist [] .start) :: rest)
    (h : Run Machine.Step m₀ tr m) (hin : ∀ n ∈ visited tr m, n.InLongTermScheduler P)
    (hmerge : m.acts P = .thread .merge :: .thread (.waitForChildren threads) :: rest')
    (h' : Run Machine.Step m tr' m') :
    threads.length = joblist.length ∧
      ((∀ t ∈ threads, ∀ u ∈ threads,
          m'.kernel.sched.arrival t = m'.kernel.sched.arrival u) ↔
        ∀ a ∈ creationTicks P 0 tr, ∀ b ∈ creationTicks P 0 tr, a ≡ b [MOD 2 ^ 32]) := by
  obtain ⟨left, threads', hctl, hlen, hmap⟩ := arrivals_of_run hr hstart h hin
  rw [hmerge] at hctl
  cases hctl with
  | merge hleft =>
    subst hleft
    -- they still do when they are ready, and ever after
    have hmap' : threads.map m'.kernel.sched.arrival = threads.map m.kernel.sched.arrival :=
      map_arrival_eq hmap fun t n hn => arrival_of_run (hr.run h) h' hn
    refine ⟨hlen, (forall_mem_eq_iff (hmap'.trans hmap)).trans ?_⟩
    -- the clock is a `u32_t`, so times are equal when the numbers of ticks are congruent
    have hcongr : ∀ a b, some ((m₀.kernel.sched.gNumticks + a) % 2 ^ 32) =
        some ((m₀.kernel.sched.gNumticks + b) % 2 ^ 32) ↔ a ≡ b [MOD 2 ^ 32] := fun a b => by
      rw [Option.some.injEq]
      exact ⟨Nat.ModEq.add_left_cancel' _, Nat.ModEq.add_left _⟩
    exact forall₂_congr fun a _ => forall₂_congr fun b _ => hcongr a b

/-- Behind the first timer tick the menu calls `run_simulation` with two jobs. -/
def callTwoJobs : List Event :=
  .timer :: Machine.call (.simulation (.runSimulation [⟨5, 1⟩, ⟨3, 2⟩])) 1

/-- Where the main thread stands when it has submitted them. -/
def admitTwoJobs : List Act :=
  [.thread .merge, .thread (.waitForChildren [3, 4]), .simulation .simulationEnd]

theorem callTwoJobs_acts : (Machine.after callTwoJobs).acts mainThread =
    [.simulation (.longTermScheduler [⟨5, 1⟩, ⟨3, 2⟩] [] .start), .simulation .simulationEnd] := by
  decide

/-- The law above where the tick comes behind the second creation: the jobs are ready with one
arrival time. -/
theorem sameArrival_iff_tickBehind :
    ∃ tr m tr' m', Run Machine.Step (Machine.after callTwoJobs) tr m ∧
      m.acts mainThread = admitTwoJobs ∧ Run Machine.Step m tr' m' ∧
      m'.kernel.sched.queue .runqueue = [1, 2, 3, 4] ∧
      ∀ t ∈ [3, 4], ∀ u ∈ [3, 4], m'.kernel.sched.arrival t = m'.kernel.sched.arrival u := by
  have hsome : ((Machine.after callTwoJobs).runs
      (Machine.resume 12 ++ .timer :: Machine.resume 1)).any fun r =>
        (∀ n ∈ visited r.1 r.2, n.InLongTermScheduler mainThread) ∧
        r.2.acts mainThread = admitTwoJobs ∧ creationTicks mainThread 0 r.1 = [0, 0] ∧
        (r.2.runs (Machine.resume 1)).any fun r' =>
          r'.2.kernel.sched.queue .runqueue = [1, 2, 3, 4] := by decide
  -- the two parts of the run, up to the admission of the jobs and behind it
  obtain ⟨⟨tr, m⟩, hrun, hend⟩ := (Option.any_eq_true _ _).mp hsome
  rw [decide_eq_true_iff] at hend
  obtain ⟨hin, hmerge, hticks, hready⟩ := hend
  obtain ⟨⟨tr', m'⟩, hrun', hqueue⟩ := (Option.any_eq_true _ _).mp hready
  rw [decide_eq_true_iff] at hqueue
  have h := Machine.run_of_runs hrun
  have h' := Machine.run_of_runs hrun'
  refine ⟨tr, m, tr', m', h, hmerge, h', hqueue, ?_⟩
  refine (sameArrival_iff (Machine.reachable_after (by decide)) callTwoJobs_acts h hin hmerge
    h').2.mpr fun a ha b hb => ?_
  rw [show creationTicks mainThread 0 tr = [0, 0] from hticks] at ha hb
  obtain rfl : a = 0 := by simpa using ha
  obtain rfl : b = 0 := by simpa using hb
  rfl

/-- A tick between the two creations: the jobs are ready with two arrival times. -/
theorem not_sameArrival_tickBetween :
    ∃ tr m tr' m', Run Machine.Step (Machine.after callTwoJobs) tr m ∧
      (∀ n ∈ visited tr m, n.InLongTermScheduler mainThread) ∧
      m.acts mainThread = admitTwoJobs ∧ Run Machine.Step m tr' m' ∧
      m'.kernel.sched.queue .runqueue = [1, 2, 3, 4] ∧
      m'.kernel.sched.arrival 3 = some 1 ∧ m'.kernel.sched.arrival 4 = some 2 ∧
      ¬∀ t ∈ [3, 4], ∀ u ∈ [3, 4], m'.kernel.sched.arrival t = m'.kernel.sched.arrival u := by
  have hsome : ((Machine.after callTwoJobs).runs
      (Machine.resume 6 ++ .timer :: Machine.resume 7)).any fun r =>
        (∀ n ∈ visited r.1 r.2, n.InLongTermScheduler mainThread) ∧
        r.2.acts mainThread = admitTwoJobs ∧
        (r.2.runs (Machine.resume 1)).any fun r' =>
          r'.2.kernel.sched.queue .runqueue = [1, 2, 3, 4] ∧
          r'.2.kernel.sched.arrival 3 = some 1 ∧ r'.2.kernel.sched.arrival 4 = some 2 := by decide
  obtain ⟨⟨tr, m⟩, hrun, hend⟩ := (Option.any_eq_true _ _).mp hsome
  rw [decide_eq_true_iff] at hend
  obtain ⟨hin, hmerge, hready⟩ := hend
  obtain ⟨⟨tr', m'⟩, hrun', hend'⟩ := (Option.any_eq_true _ _).mp hready
  rw [decide_eq_true_iff] at hend'
  obtain ⟨hqueue, h₃, h₄⟩ := hend'
  refine ⟨tr, m, tr', m', Machine.run_of_runs hrun, hin, hmerge, Machine.run_of_runs hrun', hqueue,
    h₃, h₄, fun hsame => ?_⟩
  have heq : m'.kernel.sched.arrival 3 = m'.kernel.sched.arrival 4 :=
    hsame 3 (by simp) 4 (by simp)
  rw [show m'.kernel.sched.arrival 3 = some 1 from h₃,
    show m'.kernel.sched.arrival 4 = some 2 from h₄] at heq
  simp at heq

end GeekOS
