import GeekOS.Thread.Jobs
import GeekOS.Kernel.Sorted

/-!
# The order in which a simulation runs its jobs

A thread in `run_simulation` submits a list of jobs under FCFS, SJF or PRIORITY. The module
follows the run from there, as long as nobody else submits jobs or selects a scheduler, no key is
pressed, the jobs neither yield nor block, and the other threads in the run queue have
`DEFAULT_PRIORITY`.

* `submitted`: the jobs submitted on a run, each with the thread made for it;
* `Machine.Submitting`, `Machine.Admitted`: the two phases of a simulation, before and behind the
  call of `merge_new_with_runnable`;
* `simulation_ordered`: no job is dispatched in the first phase, a job dispatched keeps the CPU
  until it has exited, and the jobs are dispatched in the order of the scheduler.
-/

namespace GeekOS

open Result TransitionSystem

/-! ## Submitting jobs -/

/-- The act submits jobs, admits them or selects a scheduler. Beside the menu and
`run_simulation`, no function of the kernel goes through such an act. -/
def Act.submits : Act → Bool
  | .thread (.createFromJob _ _ _) | .thread .merge => true
  | .simulation (.setScheduler _ _) | .simulation (.runSimulation _)
  | .simulation (.longTermScheduler _ _ _) => true
  | _ => false

/-- The call of such a function. -/
def Event.submits : Event → Bool
  | .call a => a.submits
  | _ => false

/-- The event is a keyboard interrupt. -/
def Event.isKeyboard : Event → Bool
  | .keyboard _ => true
  | _ => false

theorem Act.submits_of_createsFromJob {a : Act} (h : a.createsFromJob = true) :
    a.submits = true := by
  unfold Act.createsFromJob at h
  split at h <;> first | rfl | simp at h

/-- An act that does not submit leads to no act that does. -/
theorem Act.LeadsTo.submits {k : Kernel} {a b : Act} (h : a.LeadsTo k b)
    (ha : a.submits = false) : b.submits = false := by
  cases h <;> first | rfl | exact ha

namespace Machine

/-- The current thread calls `thread_yield` by the event. -/
def yields (m : Machine) (e : Event) : Bool :=
  match e, m.acts m.current with
  | .resume _, a :: _ => a.yields
  | _, _ => false

/-- The job that `long_term_scheduler` submits by the event, with the thread it makes for it. -/
def submission (m : Machine) (e : Event) : Option (ThreadId × Job) :=
  match e, m.acts m.current with
  | .resume _, .simulation (.longTermScheduler (job :: _) _ (.makeNew _ _)) :: _ =>
      some (m.kernel.sched.nextThread, job)
  | _, _ => none

/-- The current thread is in front of `run_simulation` with a list of jobs, under FCFS, SJF or
PRIORITY. No reschedule is pending, no job waits to be admitted, and no other thread is inside a
function that submits jobs. -/
structure StartsSimulation (m : Machine) (joblist : List Job) : Prop where
  acts : m.acts m.current = [.simulation (.runSimulation joblist)]
  scheduler : m.kernel.sched.gScheduler ≠ .rr
  calm : m.kernel.sched.gNeedReschedule = false
  newqueue : m.kernel.sched.queue .newqueue = []
  alone : ∀ u ≠ m.current, ∀ a ∈ m.acts u, a.submits = false

end Machine

/-- The jobs submitted on a run, in the order of submission. -/
def submitted (tr : List (Machine × Event)) : List (ThreadId × Job) :=
  tr.filterMap fun p => p.1.submission p.2

/-- On the run no key is pressed, nobody calls another simulation, the jobs neither yield nor
block, and in every state visited the other threads in the run queue have `DEFAULT_PRIORITY`. -/
structure Undisturbed (tr : List (Machine × Event)) (m : Machine) : Prop where
  keyboard : ∀ p ∈ tr, p.2.isKeyboard = false
  alone : ∀ p ∈ tr, p.2.submits = false
  jobs : ∀ p ∈ tr, p.1.current ∈ (submitted tr).map Prod.fst →
    p.1.yields p.2 = false ∧ p.1.sleeps p.2 = none
  others : ∀ n ∈ visited tr m, ∀ t ∈ n.kernel.sched.queue .runqueue,
    t ∉ (submitted tr).map Prod.fst → n.kernel.sched.priority t = defaultPriority

instance (tr : List (Machine × Event)) (m : Machine) : Decidable (Undisturbed tr m) :=
  decidable_of_iff ((∀ p ∈ tr, p.2.isKeyboard = false) ∧ (∀ p ∈ tr, p.2.submits = false) ∧
      (∀ p ∈ tr, p.1.current ∈ (submitted tr).map Prod.fst →
        p.1.yields p.2 = false ∧ p.1.sleeps p.2 = none) ∧
      ∀ n ∈ visited tr m, ∀ t ∈ n.kernel.sched.queue .runqueue,
        t ∉ (submitted tr).map Prod.fst → n.kernel.sched.priority t = defaultPriority)
    ⟨fun ⟨h₁, h₂, h₃, h₄⟩ => ⟨h₁, h₂, h₃, h₄⟩, fun ⟨h₁, h₂, h₃, h₄⟩ => ⟨h₁, h₂, h₃, h₄⟩⟩

/-! ## Threads have been made before they are dispatched -/

/-- A move dispatches one thread at most, and that has a record. -/
theorem Move.dispatched {l : Option Label} {c c' : Config} (h : Move l c c') {t : ThreadId}
    (ht : t ∈ c'.2.dispatched) : t ∈ c.2.dispatched ∨ ∃ th, c'.2.threads t = some th := by
  cases h with
  | dispatch hq hth =>
    rcases List.mem_append.mp ht with ht | ht
    · exact .inl ht
    · obtain rfl := List.mem_singleton.mp ht
      exact .inr ⟨_, Function.update_self ..⟩
  | _ => exact .inl ht

/-- Every thread dispatched so far has a record. -/
theorem reachable_dispatched {m : Machine} (h : Reachable Machine.Step boot m) :
    ∀ t ∈ m.kernel.sched.dispatched, ∃ th, m.kernel.sched.threads t = some th := by
  have hI := h.invariant (I := fun m => Reachable Machine.Step boot m ∧
    ∀ t ∈ m.kernel.sched.dispatched, ∃ th, m.kernel.sched.threads t = some th)
    ⟨.refl _, fun t ht => ?_⟩ fun m e m' ⟨hr, hI⟩ hs => ⟨hr.tail hs, ?_⟩
  · exact hI.2
  · rw [show boot.kernel.sched.dispatched = [] from rfl] at ht
    exact absurd ht List.not_mem_nil
  · have hmoves := (Machine.exec_moves hs.2).invariant (I := fun c => Placed c.1.toList c.2 ∧
      ∀ t ∈ c.2.dispatched, ∃ th, c.2.threads t = some th) ?_ ⟨reachable_placed hr, hI⟩
    · exact hmoves.2
    rintro l c c' - ⟨hp, hI⟩ hm
    refine ⟨hp.move hm, fun t ht => ?_⟩
    rcases hm.dispatched ht with ht | hth
    · -- a record is never taken away
      have hmove : Moves (fun _ => True) c c' := .single ⟨l, fun _ _ => trivial, hm⟩
      exact (hmove.priority hp (hI t ht)).1
    · exact hth

namespace Machine

variable {m m' : Machine} {e : Event} {jobs : List (ThreadId × Job)} {g : SchedulerKind}
  {joblist : List Job} {P : ThreadId}

/-! ## What one step may do -/

/-- What the conditions on a run say about one step. -/
structure Quiet (m : Machine) (jobs : List (ThreadId × Job)) (e : Event) : Prop where
  keyboard : e.isKeyboard = false
  alone : e.submits = false
  jobs : m.current ∈ jobs.map Prod.fst → m.yields e = false ∧ m.sleeps e = none

/-- What holds throughout a simulation: the scheduler stays, no reschedule is pending, and the
`thread_create` calls under way are not for jobs. -/
structure Calm (m : Machine) (g : SchedulerKind) (jobs : List (ThreadId × Job)) : Prop where
  scheduler : m.kernel.sched.gScheduler = g
  noReschedule : m.kernel.sched.gNeedReschedule = false
  unfinished : ∀ t, m.Unfinished t → t ∉ jobs.map Prod.fst

/-- The event is an act that submits. -/
def Submits (m : Machine) (e : Event) : Prop :=
  ∃ memory a rest, e = .resume memory ∧ m.acts m.current = a :: rest ∧ a.submits = true

/-- A quiet step spares the jobs, if it is no act of a submission. -/
theorem Calm.spares (h : m.Calm g jobs) (hg : g ≠ .rr) (hq : m.Quiet jobs e)
    (hsub : ¬m.Submits e) : ∀ l, m.Allows e l → l.Spares jobs := by
  intro l hl
  cases e with
  | call a => exact hl.elim
  | timer =>
    -- a tick asks for a reschedule under RR only
    rcases hl.1 with hneed | hrr
    · rw [h.noReschedule] at hneed
      exact absurd hneed (by decide)
    · exact absurd (h.scheduler.symm.trans hrr) hg
  | keyboard keycode => exact absurd hq.keyboard (by simp [Event.isKeyboard])
  | resume memory =>
    obtain ⟨a, rest, hacts, hl⟩ := hl
    have hsubmits : a.submits = false := by
      by_contra hne
      exact hsub ⟨memory, a, rest, rfl, hacts, by simpa using hne⟩
    cases l with
    | ready t =>
      obtain ⟨rfl, hyields⟩ := hl
      intro hjob
      have hno := (hq.jobs hjob).1
      simp [yields, hacts, hyields] at hno
    | block t q =>
      obtain ⟨rfl, hsleeps⟩ := hl
      intro hjob
      have hno := (hq.jobs hjob).2
      simp [sleeps, hacts, hsleeps] at hno
    | merge =>
      obtain rfl : a = .thread .merge := hl
      simp [Act.submits] at hsubmits
    | spawnNew t =>
      rw [Act.submits_of_createsFromJob hl.2] at hsubmits
      exact absurd hsubmits (by decide)
    | select g' =>
      obtain ⟨quantum, rfl⟩ := hl
      simp [Act.submits] at hsubmits
    | prioritize t =>
      obtain rfl : a = .thread (.createPriority t) := hl
      exact h.unfinished t ⟨m.current, _, hacts ▸ List.mem_cons_self, .inr (.inr rfl)⟩
    | wake | spawn | detach | exit | free | preemption | reschedule => trivial

/-- A thread whose `thread_create` is under way behind a step had it under way before, or has been
made by the step, which then submits no job. -/
theorem Unfinished.of_step {t : ThreadId} (hs : m.Step e m') (h : m'.Unfinished t) :
    m.Unfinished t ∨ t = m.kernel.sched.nextThread ∧ m.submission e = none := by
  obtain ⟨u, b, hb, hfin⟩ := h
  rcases mem_acts_of_step hs hb with hold | ⟨-, -, hcall, -⟩ |
    ⟨rfl, memory, a, rest, acts, k', rfl, hacts, hk, -, hmem⟩
  · exact .inl ⟨u, b, hold, hfin⟩
  · rcases hfin with rfl | ⟨pid, rfl⟩ | rfl <;> simp [Act.isCall] at hcall
  · rcases hfin.of_leadsTo ((Act.run_follows hk).leadsTo hmem) with
      hfin | ⟨rfl, mode, arrival, rfl⟩
    · exact .inl ⟨_, a, hacts ▸ List.mem_cons_self, hfin⟩
    · exact .inr ⟨rfl, by simp [submission, hacts]⟩

/-- Only a tick under RR and a key ask for a reschedule. -/
theorem Calm.gNeedReschedule (h : m.Calm g jobs) (hg : g ≠ .rr) (hq : m.Quiet jobs e)
    (hs : m.Step e m') : m'.kernel.sched.gNeedReschedule = false := by
  refine (exec_moves hs.2).gNeedReschedule_eq (fun b hb => ?_) |>.trans h.noReschedule
  cases e with
  | call a => exact hb
  | resume memory =>
    obtain ⟨a, rest, -, hb⟩ := hb
    exact hb
  | timer =>
    rcases hb.1 with hneed | hrr
    · rw [h.noReschedule] at hneed
      exact absurd hneed (by decide)
    · exact hg (h.scheduler.symm.trans hrr)
  | keyboard keycode => exact absurd hq.keyboard (by simp [Event.isKeyboard])

/-- The job submitted by a step gets the next thread. -/
theorem submission_eq_some {p : ThreadId × Job} (h : m.submission e = some p) :
    p.1 = m.kernel.sched.nextThread ∧ ∃ rest threads pid priority rest', m.acts m.current =
      .simulation (.longTermScheduler (p.2 :: rest) threads (.makeNew pid priority)) :: rest' := by
  unfold submission at h
  split at h
  next memory _ job rest threads pid priority rest' hacts =>
    obtain rfl := Option.some.inj h
    exact ⟨rfl, rest, threads, pid, priority, rest', hacts⟩
  · simp at h

/-- What a step that submits a job does to the thread module. -/
theorem exec_submission {p : ThreadId × Job} (h : m.submission e = some p)
    (hexec : m.exec e = .ok m') :
    ∃ pid priority, threadCreateFromJob { pid, priority } .attached m.kernel.sched =
      .ok (p.1, m'.kernel.sched) := by
  unfold submission at h
  split at h
  next memory _ job rest threads pid priority rest' hacts =>
    obtain rfl := Option.some.inj h
    obtain ⟨acts, k', hk, rfl⟩ := (exec_resume hacts).mp hexec
    cases SimulationAct.run_step hk with
    | submit hj =>
    cases hj with
    | made hs =>
    obtain ⟨-, -, rfl⟩ := threadCreateFromJob_moves (A := fun _ => True) (x := none) trivial hs
    exact ⟨pid, priority, hs⟩
  · simp at h

/-- A simulation stays calm as long as nobody selects another scheduler. -/
theorem Calm.step (h : m.Calm g jobs) (hr : Reachable Step boot m) (hg : g ≠ .rr)
    (hq : m.Quiet jobs e) (hsel : ¬m.Selects e)
    (hrec : ∀ t ∈ jobs.map Prod.fst, ∃ th, m.kernel.sched.threads t = some th)
    (hs : m.Step e m') : m'.Calm g (jobs ++ (m.submission e).toList) where
  scheduler := (gScheduler_eq hs hsel).trans h.scheduler
  noReschedule := h.gNeedReschedule hg hq hs
  unfinished t ht hjob := by
    have hp := reachable_placed hr
    rw [List.map_append, List.mem_append] at hjob
    rcases ht.of_step hs with hold | ⟨rfl, hnone⟩
    · rcases hjob with hjob | hjob
      · exact h.unfinished t hold hjob
      · -- the job just submitted is a thread that did not exist before
        obtain ⟨⟨th, hth⟩, -⟩ := reachable_unfinished hr hold
        obtain ⟨p, hp', rfl⟩ := List.mem_map.mp hjob
        have heq := (submission_eq_some (Option.mem_toList.mp hp')).1
        exact (hp.lt_nextThread hth).ne heq
    · rw [hnone] at hjob
      rcases hjob with hjob | hjob
      · obtain ⟨th, hth⟩ := hrec _ hjob
        exact absurd (hp.lt_nextThread hth) (lt_irrefl _)
      · simp at hjob

/-- A thread inside no function that submits jobs enters none by a step that calls none. -/
theorem alone_step {u : ThreadId} (h : ∀ a ∈ m.acts u, a.submits = false)
    (he : e.submits = false) (hs : m.Step e m') : ∀ a ∈ m'.acts u, a.submits = false := by
  intro a ha
  rcases mem_acts_of_step hs ha with hold | ⟨-, -, -, rfl⟩ |
    ⟨rfl, memory, b, rest, acts, k', -, hacts, hk, -, hmem⟩
  · exact h a hold
  · exact he
  · exact ((Act.run_follows hk).leadsTo hmem).submits (h b (hacts ▸ List.mem_cons_self))

/-- A step that goes through no act of a submission submits no job. -/
theorem submission_eq_none (h : ¬m.Submits e) : m.submission e = none := by
  unfold submission
  split
  next memory _ job rest threads pid priority rest' hacts =>
    exact absurd ⟨_, _, _, rfl, hacts, rfl⟩ h
  · rfl

/-- Nor does it select a scheduler. -/
theorem not_selects (h : ¬m.Submits e) : ¬m.Selects e := by
  unfold Selects
  split
  next memory _ g quantum rest hacts => exact absurd ⟨_, _, _, rfl, hacts, rfl⟩ h
  · exact id

/-! ## The two phases -/

/-- Where `run_simulation` stands before the jobs are admitted: in front of it, in the loop of
`long_term_scheduler` with the jobs left, or in front of `merge_new_with_runnable`. -/
inductive SubmissionControl (g : SchedulerKind) (joblist : List Job) :
    List (ThreadId × Job) → List Act → Prop
  | start : SubmissionControl g joblist [] [.simulation (.runSimulation joblist)]
  | submit {jobs : List (ThreadId × Job)} {rest : List Job} {threads : List ThreadId}
      {c : JobCreation} (h : jobs.map Prod.snd ++ rest = joblist)
      (hc : ∀ job rest' pid priority, rest = job :: rest' → c = .makeNew pid priority →
        priority = jobPriority g job) :
      SubmissionControl g joblist jobs
        [.simulation (.longTermScheduler rest threads c), .simulation .simulationEnd]
  | merge {jobs : List (ThreadId × Job)} {threads : List ThreadId}
      (h : jobs.map Prod.snd = joblist) :
      SubmissionControl g joblist jobs
        [.thread .merge, .thread (.waitForChildren threads), .simulation .simulationEnd]

/-- Before the jobs are admitted: `P` submits them, and those submitted wait in the new queue. -/
structure Submitting (m : Machine) (g : SchedulerKind) (P : ThreadId) (joblist : List Job)
    (jobs : List (ThreadId × Job)) : Prop where
  calm : m.Calm g jobs
  control : SubmissionControl g joblist jobs (m.acts P)
  alone : ∀ u ≠ P, ∀ a ∈ m.acts u, a.submits = false
  wait : m.kernel.sched.JobsWait g jobs

/-- Behind that: all jobs have been submitted, nobody submits others, and they run in order. -/
structure Admitted (m : Machine) (g : SchedulerKind) (joblist : List Job)
    (jobs : List (ThreadId × Job)) : Prop where
  calm : m.Calm g jobs
  complete : jobs.map Prod.snd = joblist
  nodup : (jobs.map Prod.fst).Nodup
  alone : ∀ u, ∀ a ∈ m.acts u, a.submits = false
  run : JobsRun g jobs (some m.current, m.kernel.sched)

theorem SubmissionControl.ne_nil {l : List Act} (h : SubmissionControl g joblist jobs l) :
    l ≠ [] := by
  cases h <;> simp

/-- The jobs submitted have records. -/
theorem Submitting.exists_record (h : m.Submitting g P joblist jobs) (hr : Reachable Step boot m) :
    ∀ t ∈ jobs.map Prod.fst, ∃ th, m.kernel.sched.threads t = some th := by
  intro t ht
  obtain ⟨th, hth, -⟩ := (reachable_placed hr).live t (.inr ⟨_, h.wait.mem_newqueue.mpr ht⟩)
  exact ⟨th, hth⟩

/-- The thread on the CPU is no job before the jobs are admitted. -/
theorem Submitting.current_not_mem (h : m.Submitting g P joblist jobs)
    (hr : Reachable Step boot m) : m.current ∉ jobs.map Prod.fst := fun hjob =>
  (reachable_placed hr).outside _ (List.mem_singleton_self _) _ (h.wait.mem_newqueue.mpr hjob)

/-- Only `P` goes through acts of a submission. -/
theorem Submitting.not_submits (h : m.Submitting g P joblist jobs)
    (hP : ∀ memory, e = .resume memory → m.current ≠ P) : ¬m.Submits e := by
  rintro ⟨memory, a, rest, rfl, hacts, hsubmits⟩
  have halone := h.alone _ (hP memory rfl) a (hacts ▸ List.mem_cons_self)
  rw [halone] at hsubmits
  exact absurd hsubmits (by decide)

/-- A step by which `P` goes through no act leaves it where it is. -/
theorem Submitting.step_other (h : m.Submitting g P joblist jobs) (hr : Reachable Step boot m)
    (hg : g ≠ .rr) (hq : m.Quiet jobs e) (hP : ∀ memory, e = .resume memory → m.current ≠ P)
    (hs : m.Step e m') : m'.Submitting g P joblist jobs := by
  have hsub := h.not_submits hP
  have hcalm := h.calm.step hr hg hq (not_selects hsub) (h.exists_record hr) hs
  rw [submission_eq_none hsub, Option.toList_none, List.append_nil] at hcalm
  refine ⟨hcalm, ?_, fun u hu => alone_step (h.alone u hu) hq.alone hs,
    h.wait.moves (c := (some m.current, m.kernel.sched)) (reachable_placed hr)
      (h.calm.spares hg hq hsub) (exec_moves hs.2)⟩
  -- the stack of `P` is as it was: another thread runs, or an interrupt comes
  suffices hsame : m'.acts P = m.acts P by rw [hsame]; exact h.control
  by_cases hcur : m.current = P
  · rcases step_cases hs with ⟨-, hacts⟩ | ⟨a, -, hnil, -⟩ | ⟨memory, a, rest, acts, k', he, -⟩
    · rw [hacts]
    · exact absurd (hcur ▸ hnil) h.control.ne_nil
    · exact absurd hcur (hP memory he)
  · exact exec_acts_of_ne hs.2 (Ne.symm hcur)

/-- No act of `run_simulation` selects a scheduler. -/
theorem SubmissionControl.not_selects (h : SubmissionControl g joblist jobs (m.acts m.current)) :
    ¬m.Selects e := by
  intro hsel
  unfold Selects at hsel
  split at hsel
  next memory _ g quantum rest hacts =>
    rw [hacts] at h
    cases h
  · exact hsel

/-- When `P` goes through an act, its next acts and the new queue decide. -/
theorem Submitting.step_self (h : m.Submitting g m.current joblist jobs)
    (hr : Reachable Step boot m) (hg : g ≠ .rr) (hq : m.Quiet jobs e) (hs : m.Step e m')
    (hcontrol : SubmissionControl g joblist (jobs ++ (m.submission e).toList) (m'.acts m.current))
    (hwait : m'.kernel.sched.JobsWait g (jobs ++ (m.submission e).toList)) :
    m'.Submitting g m.current joblist (jobs ++ (m.submission e).toList) where
  calm := h.calm.step hr hg hq h.control.not_selects (h.exists_record hr) hs
  control := hcontrol
  alone u hu a ha := h.alone u hu a (exec_acts_of_ne hs.2 hu ▸ ha)
  wait := hwait

/-- When this act makes no job, only its next acts are new. -/
theorem Submitting.step_none {memory : Memory} {acts : List Act} {k : Kernel}
    (h : m.Submitting g m.current joblist jobs) (hr : Reachable Step boot m) (hg : g ≠ .rr)
    (hq : m.Quiet jobs (.resume memory))
    (hs : m.Step (.resume memory) ⟨k, Function.update m.acts m.current acts⟩)
    (hnone : m.submission (.resume memory) = none)
    (hcontrol : SubmissionControl g joblist jobs acts) (hwait : k.sched.JobsWait g jobs) :
    Submitting ⟨k, Function.update m.acts m.current acts⟩ g m.current joblist
      (jobs ++ (m.submission (.resume memory)).toList) := by
  have hjobs : jobs ++ (m.submission (.resume memory)).toList = jobs := by
    rw [hnone, Option.toList_none, List.append_nil]
  refine h.step_self hr hg hq hs ?_ ?_ <;> rw [hjobs]
  · show SubmissionControl g joblist jobs (Function.update m.acts m.current acts m.current)
    rwa [Function.update_self]
  · exact hwait

/-- `long_term_scheduler` with a job left goes on with the thread for it, or it submits the job. -/
theorem Submitting.step_longTermScheduler {memory : Memory} {job : Job} {rest : List Job}
    {threads : List ThreadId} {c : JobCreation} (h : m.Submitting g m.current joblist jobs)
    (hr : Reachable Step boot m) (hg : g ≠ .rr) (hq : m.Quiet jobs (.resume memory))
    (hs : m.Step (.resume memory) m')
    (hacts : m.acts m.current =
      [.simulation (.longTermScheduler (job :: rest) threads c), .simulation .simulationEnd])
    (hlist : jobs.map Prod.snd ++ job :: rest = joblist)
    (hc : ∀ pid priority, c = .makeNew pid priority → priority = jobPriority g job) :
    m'.Submitting g m.current joblist (jobs ++ (m.submission (.resume memory)).toList) := by
  have hp := reachable_placed hr
  obtain ⟨acts, k', hk, rfl⟩ := (exec_resume hacts).mp hs.2
  cases SimulationAct.run_step hk with
  | submit hj =>
  -- the function goes on with the same job, and the new queue is as it was
  have hgo : ∀ {c' : JobCreation} {s : Sched},
      m.Step (.resume memory) ⟨{ m.kernel with sched := s }, Function.update m.acts m.current
        ([.simulation (.longTermScheduler (job :: rest) threads c')] ++
          [.simulation .simulationEnd])⟩ →
      (∀ pid priority, c ≠ .makeNew pid priority) →
      (∀ pid priority, c' = .makeNew pid priority → priority = jobPriority g job) →
      s.JobsWait g jobs →
      Submitting ⟨{ m.kernel with sched := s }, Function.update m.acts m.current
        ([.simulation (.longTermScheduler (job :: rest) threads c')] ++
          [.simulation .simulationEnd])⟩ g m.current joblist
        (jobs ++ (m.submission (.resume memory)).toList) := by
    intro c' s hs hne hc' hwait
    refine h.step_none hr hg hq hs ?_ (.submit hlist fun job' rest' pid priority hcons he => ?_) hwait
    · cases c <;> simp_all [submission]
    · obtain ⟨rfl, rfl⟩ := List.cons.inj hcons
      exact hc' pid priority he
  cases hj with
  | @asleep a q s hsleep hwait =>
    refine hgo hs (by simp) (by simp) ?_
    -- the thread that goes to sleep is no job
    refine h.wait.moves (c := (some m.current, m.kernel.sched)) hp ?_
      (threadWait_moves (A := fun l => l = .block m.current q) rfl hwait)
    rintro _ rfl
    exact h.current_not_mem hr
  | @alloc a hsleep =>
    refine hgo hs (by simp) ?_ h.wait
    cases a <;> simp [Allocation.next]
  | pid =>
    have hpid : Moves (fun _ => False) (some m.current, m.kernel.sched)
        (some m.current, (genPid m.kernel.sched).2) := genPid_moves
    exact hgo hs (by simp) (by simp)
      (h.wait.moves (c := (some m.current, m.kernel.sched)) hp (by simp) hpid)
  | priority pid =>
    refine hgo hs (by simp) (fun n p he => ?_) h.wait
    obtain ⟨-, rfl⟩ := JobCreation.makeNew.inj he
    rw [h.calm.scheduler]
  | @made pid priority t s hcreate =>
    have hsome : m.submission (.resume memory) = some (m.kernel.sched.nextThread, job) := by
      simp [submission, hacts]
    obtain ⟨rfl, -⟩ := threadCreateFromJob_queue hcreate
    refine h.step_self hr hg hq hs ?_ ?_
    · rw [hsome, Option.toList_some]
      show SubmissionControl g joblist _ (Function.update m.acts m.current _ m.current)
      rw [Function.update_self]
      exact .submit (by simpa using hlist) (by simp)
    · rw [hsome, Option.toList_some]
      refine h.wait.threadCreateFromJob hp (fun hdisp => ?_) (hc pid priority rfl) hcreate
      obtain ⟨th, hth⟩ := reachable_dispatched hr _ hdisp
      exact (hp.lt_nextThread hth).ne rfl

/-- When `P` goes through an act before the jobs are admitted, it goes on submitting, or it admits
them. -/
theorem Submitting.step_resume {memory : Memory} (h : m.Submitting g m.current joblist jobs)
    (hr : Reachable Step boot m) (hg : g ≠ .rr) (hq : m.Quiet jobs (.resume memory))
    (hother : ∀ t ∈ m.kernel.sched.queue .runqueue, t ∉ jobs.map Prod.fst →
      m.kernel.sched.priority t = defaultPriority)
    (hs : m.Step (.resume memory) m') :
    m'.Submitting g m.current joblist (jobs ++ (m.submission (.resume memory)).toList) ∨
      m'.Admitted g joblist (jobs ++ (m.submission (.resume memory)).toList) := by
  have hcontrol := h.control
  generalize hacts : m.acts m.current = l at hcontrol
  cases hcontrol with
  | start =>
    refine .inl ?_
    obtain ⟨acts, k', hk, rfl⟩ := (exec_resume hacts).mp hs.2
    cases SimulationAct.run_step hk
    have hnone : m.submission (.resume memory) = none := by
      cases memory <;> simp [submission, hacts]
    exact h.step_none hr hg hq hs hnone (.submit rfl (by simp)) h.wait
  | @submit _ rest threads c hlist hc =>
    refine .inl ?_
    cases rest with
    | nil =>
      obtain ⟨acts, k', hk, rfl⟩ := (exec_resume hacts).mp hs.2
      cases SimulationAct.run_step hk
      have hnone : m.submission (.resume memory) = none := by
        cases memory <;> simp [submission, hacts]
      exact h.step_none hr hg hq hs hnone (.merge (by simpa using hlist)) h.wait
    | cons job rest =>
      exact h.step_longTermScheduler hr hg hq hs hacts hlist
        fun pid priority => hc job rest pid priority rfl
  | @merge _ threads hlist =>
    refine .inr ?_
    have hnone : m.submission (.resume memory) = none := by
      cases memory <;> simp [submission, hacts]
    have hcalm := h.calm.step hr hg hq h.control.not_selects (h.exists_record hr) hs
    rw [hnone, Option.toList_none, List.append_nil] at hcalm ⊢
    obtain ⟨acts, k', hk, rfl⟩ := (exec_resume hacts).mp hs.2
    cases ThreadAct.run_step hk with
    | @merge s hmerge =>
    have hp := reachable_placed hr
    have hnodup : (jobs.map Prod.fst).Nodup := by
      rw [← (jobOrder_perm g jobs).nodup_iff, ← h.wait.newqueue]
      exact hp.nodup .newqueue
    refine ⟨hcalm, hlist, hnodup, fun u a ha => ?_,
      h.wait.mergeNewWithRunnable hp hother hmerge⟩
    by_cases hu : u = m.current
    · -- what is left of `run_simulation` submits nothing
      subst hu
      have ha' : a = .thread (.waitForChildren threads) ∨ a = .simulation .simulationEnd := by
        simpa using ha
      rcases ha' with rfl | rfl <;> rfl
    · exact h.alone u hu a (by simpa [Function.update_of_ne hu] using ha)

/-- In both phases, what a step does. -/
theorem Submitting.step (h : m.Submitting g P joblist jobs) (hr : Reachable Step boot m)
    (hg : g ≠ .rr) (hq : m.Quiet jobs e)
    (hother : ∀ t ∈ m.kernel.sched.queue .runqueue, t ∉ jobs.map Prod.fst →
      m.kernel.sched.priority t = defaultPriority)
    (hs : m.Step e m') :
    m'.Submitting g P joblist (jobs ++ (m.submission e).toList) ∨
      m'.Admitted g joblist (jobs ++ (m.submission e).toList) := by
  by_cases hP : ∃ memory, e = .resume memory ∧ m.current = P
  · obtain ⟨memory, rfl, rfl⟩ := hP
    exact h.step_resume hr hg hq hother hs
  · have hother' : ∀ memory, e = .resume memory → m.current ≠ P :=
      fun memory he hcur => hP ⟨memory, he, hcur⟩
    rw [submission_eq_none (h.not_submits hother'), Option.toList_none, List.append_nil]
    exact .inl (h.step_other hr hg hq hother' hs)

/-- Behind the admission nobody submits, and every step spares the jobs. -/
theorem Admitted.step (h : m.Admitted g joblist jobs) (hr : Reachable Step boot m) (hg : g ≠ .rr)
    (hq : m.Quiet jobs e) (hs : m.Step e m') :
    m'.Admitted g joblist (jobs ++ (m.submission e).toList) := by
  have hp : Placed [m.current] m.kernel.sched := reachable_placed hr
  have hsub : ¬m.Submits e := by
    rintro ⟨memory, a, rest, rfl, hacts, hsubmits⟩
    rw [h.alone _ a (hacts ▸ List.mem_cons_self)] at hsubmits
    exact absurd hsubmits (by decide)
  have hcalm := h.calm.step hr hg hq (not_selects hsub) (fun t ht => h.run.exists_record hp ht) hs
  rw [submission_eq_none hsub, Option.toList_none, List.append_nil] at hcalm ⊢
  exact ⟨hcalm, h.complete, h.nodup, fun u => alone_step (h.alone u) hq.alone hs,
    h.run.moves hp (h.calm.spares hg hq hsub) (exec_moves hs.2)⟩

/-- At the start of a simulation no job has been submitted. -/
theorem StartsSimulation.submitting (h : m.StartsSimulation joblist) :
    m.Submitting m.kernel.sched.gScheduler m.current joblist [] where
  calm := ⟨rfl, h.calm, by simp⟩
  control := h.acts ▸ .start
  alone := h.alone
  wait := by
    refine ⟨rfl, ?_, by simp, by simp⟩
    rw [h.newqueue, jobOrder_nil]

end Machine

/-! ## Runs of a simulation -/

theorem submitted_append (tr : List (Machine × Event)) (m : Machine) (e : Event) :
    submitted (tr ++ [(m, e)]) = submitted tr ++ (m.submission e).toList := by
  rw [submitted, List.filterMap_append, ← submitted]
  cases h : m.submission e <;> simp [h]

/-- A thread that has a record in a state of a run has one at its end. -/
theorem exists_record_of_visited {m₀ m n : Machine} {tr : List (Machine × Event)}
    (hr : Reachable Machine.Step boot m₀) (h : Run Machine.Step m₀ tr m) (hn : n ∈ visited tr m)
    {t : ThreadId} (ht : ∃ th, n.kernel.sched.threads t = some th) :
    ∃ th, m.kernel.sched.threads t = some th := by
  induction h with
  | nil =>
    obtain rfl : n = m₀ := by simpa [visited] using hn
    exact ht
  | @snoc s s' tr e hrun hs ih =>
    have hsplit : n ∈ visited tr s ∨ n = s' := by
      simpa [visited, or_assoc] using hn
    rcases hsplit with hn | rfl
    · obtain ⟨tr₀, hrun₀⟩ := hr
      have hp := reachable_placed ⟨_, hrun₀.append hrun⟩
      exact ((Machine.exec_moves hs.2).priority hp (ih hn)).1
    · exact ht

namespace Undisturbed

variable {m₀ s s' : Machine} {tr : List (Machine × Event)} {e : Event}

/-- What is known of a run is known of the run before its last step. -/
theorem init (h : Undisturbed (tr ++ [(s, e)]) s') (hr : Reachable Machine.Step boot m₀)
    (hrun : Run Machine.Step m₀ tr s) : Undisturbed tr s where
  keyboard p hp := h.keyboard p (List.mem_append_left _ hp)
  alone p hp := h.alone p (List.mem_append_left _ hp)
  jobs p hp hjob := by
    refine h.jobs p (List.mem_append_left _ hp) ?_
    rw [submitted_append, List.map_append]
    exact List.mem_append_left _ hjob
  others n hn t ht hjob := by
    refine h.others n (by simp only [mem_visited, List.mem_append] at hn ⊢; grind) t ht ?_
    rw [submitted_append, List.map_append, List.mem_append, not_or]
    refine ⟨hjob, fun hlast => ?_⟩
    -- the last job was made behind `n`, so it cannot be in a queue there
    obtain ⟨p, hp, rfl⟩ := List.mem_map.mp hlast
    have hnext := (Machine.submission_eq_some (Option.mem_toList.mp hp)).1
    obtain ⟨tr₀, hrun₀⟩ := hr
    have hreach : Reachable Machine.Step boot n := by
      obtain ⟨tr₁, hrun₁⟩ := hrun.reachable_of_visited hn
      exact ⟨_, hrun₀.append hrun₁⟩
    obtain ⟨th, hth, -⟩ := (reachable_placed hreach).live p.1 (.inr ⟨_, ht⟩)
    obtain ⟨th', hth'⟩ := exists_record_of_visited ⟨tr₀, hrun₀⟩ hrun hn ⟨th, hth⟩
    exact ((reachable_placed ⟨_, hrun₀.append hrun⟩).lt_nextThread hth').ne hnext

/-- What is known of the last step. -/
theorem quiet (h : Undisturbed (tr ++ [(s, e)]) s') : s.Quiet (submitted tr) e where
  keyboard := h.keyboard (s, e) (by simp)
  alone := h.alone (s, e) (by simp)
  jobs hjob := by
    refine h.jobs (s, e) (by simp) ?_
    rw [submitted_append, List.map_append]
    exact List.mem_append_left _ hjob

end Undisturbed

/-- On an undisturbed run from the start of a simulation, its jobs are being submitted, or they
have been admitted. -/
theorem simulation_phases {m₀ m : Machine} {joblist : List Job} {tr : List (Machine × Event)}
    (hr : Reachable Machine.Step boot m₀) (hstart : m₀.StartsSimulation joblist)
    (h : Run Machine.Step m₀ tr m) (hu : Undisturbed tr m) :
    m.Submitting m₀.kernel.sched.gScheduler m₀.current joblist (submitted tr) ∨
      m.Admitted m₀.kernel.sched.gScheduler joblist (submitted tr) := by
  induction h with
  | nil => exact .inl hstart.submitting
  | @snoc s s' tr e hrun hs ih =>
    have hpre := hu.init hr hrun
    obtain ⟨tr₀, hrun₀⟩ := hr
    have hreach : Reachable Machine.Step boot s := ⟨_, hrun₀.append hrun⟩
    rw [submitted_append]
    rcases ih hpre with hsubmitting | hadmitted
    · exact hsubmitting.step hreach hstart.scheduler hu.quiet (hpre.others s (by simp)) hs
    · exact .inr (hadmitted.step hreach hstart.scheduler hu.quiet hs)

/-- From the moment in which a thread calls `run_simulation` under FCFS, SJF or PRIORITY, on every
run on which nobody else submits jobs, the keyboard is silent, the jobs neither yield nor block and
the other threads in the run queue have `DEFAULT_PRIORITY`:

* a job has been dispatched only if the whole list has been submitted and admitted;
* a job dispatched has the CPU or has exited, and no job is dispatched twice;
* the jobs dispatched are the first ones in the order of submission under FCFS, or in its stable
  sort by `cpu_burst` under SJF and by `priority` under PRIORITY. -/
theorem simulation_ordered {m₀ m : Machine} {joblist : List Job} {tr : List (Machine × Event)}
    (hr : Reachable Machine.Step boot m₀) (hstart : m₀.StartsSimulation joblist)
    (h : Run Machine.Step m₀ tr m) (hu : Undisturbed tr m) :
    (m.kernel.sched.started (submitted tr) ≠ [] →
      (submitted tr).map Prod.snd = joblist ∧ m.kernel.sched.queue .newqueue = []) ∧
    (∀ t ∈ m.kernel.sched.started (submitted tr), t = m.current ∨ m.kernel.sched.Exited t) ∧
    (m.kernel.sched.started (submitted tr)).Nodup ∧
    m.kernel.sched.started (submitted tr) <+:
      jobOrder m₀.kernel.sched.gScheduler (submitted tr) := by
  rcases simulation_phases hr hstart h hu with hsubmitting | hadmitted
  · -- no job has been dispatched yet
    have hnone : m.kernel.sched.started (submitted tr) = [] :=
      List.filter_eq_nil_iff.mpr fun t ht hjob =>
        hsubmitting.wait.undispatched t (by simpa using hjob) ht
    rw [hnone]
    exact ⟨fun hne => absurd rfl hne, by simp, List.nodup_nil, List.nil_prefix⟩
  · have hprefix : m.kernel.sched.started (submitted tr) <+:
        jobOrder m₀.kernel.sched.gScheduler (submitted tr) := ⟨_, hadmitted.run.order⟩
    refine ⟨fun _ => ⟨hadmitted.complete, hadmitted.run.newqueue⟩, fun t ht => ?_, ?_, hprefix⟩
    · exact (hadmitted.run.finished t ht).imp_left fun hcur => (Option.some.inj hcur).symm
    · exact hprefix.sublist.nodup ((jobOrder_perm _ _).nodup_iff.mpr hadmitted.nodup)

/-- The menu selects SJF and calls `run_simulation` with two jobs, of the burst times 5 and 3. -/
def startTwoJobs : List Event :=
  selectSjf ++ [.call (.simulation (.runSimulation [⟨5, 1⟩, ⟨3, 2⟩]))]

/-- The jobs are submitted and admitted, and the parent yields to the second one, which is
interrupted by the timer and exits. -/
def twoJobs : List Event :=
  Machine.resume 16 ++ .timer :: Machine.call (.thread (.exit 0)) 2

/-- A thread that is never current keeps its acts. -/
theorem acts_eq_of_run {m₀ m : Machine} {tr : List (Machine × Event)} {u : ThreadId}
    (h : Run Machine.Step m₀ tr m) (hu : ∀ p ∈ tr, u ≠ p.1.current) : m.acts u = m₀.acts u := by
  induction h with
  | nil => rfl
  | @snoc s s' tr e hrun hs ih =>
    rw [Machine.exec_acts_of_ne hs.2 (hu (s, e) (by simp)),
      ih fun p hp => hu p (List.mem_append_left _ hp)]

theorem startsSimulation_startTwoJobs :
    (Machine.after startTwoJobs).StartsSimulation [⟨5, 1⟩, ⟨3, 2⟩] where
  acts := by decide
  scheduler := by decide
  calm := by decide
  newqueue := by decide
  alone u hu a ha := by
    have hmain : (boot.runs startTwoJobs).any fun r => ∀ p ∈ r.1, p.1.current = mainThread := by
      decide
    obtain ⟨⟨tr, m⟩, hr, hcur⟩ := (Option.any_eq_true _ _).mp hmain
    rw [decide_eq_true_iff] at hcur
    obtain rfl : Machine.after startTwoJobs = m := by simp [Machine.after, hr]
    have hu' : u ≠ mainThread := hu
    rw [acts_eq_of_run (Machine.run_of_runs hr) fun p hp => hcur p hp ▸ hu'] at ha
    rcases mem_boot_acts ha with rfl | rfl <;> rfl

/-- The law above on the run `twoJobs`: the job with the shorter burst time runs first. -/
theorem simulation_ordered_twoJobs :
    ∃ tr m, Run Machine.Step (Machine.after startTwoJobs) tr m ∧
      m.kernel.sched.started (submitted tr) = [4, 3] ∧
      (submitted tr).map Prod.snd = [⟨5, 1⟩, ⟨3, 2⟩] ∧
      m.kernel.sched.started (submitted tr) <+: jobOrder .sjf (submitted tr) := by
  have hsome : ((Machine.after startTwoJobs).runs twoJobs).any fun r =>
      Undisturbed r.1 r.2 ∧ r.2.kernel.sched.started (submitted r.1) = [4, 3] := by decide
  obtain ⟨⟨tr, m⟩, hr, hend⟩ := (Option.any_eq_true _ _).mp hsome
  rw [decide_eq_true_iff] at hend
  obtain ⟨hu, hstarted⟩ := hend
  have hrun := Machine.run_of_runs hr
  obtain ⟨hadmitted, -, -, hprefix⟩ := simulation_ordered (Machine.reachable_after (by decide))
    startsSimulation_startTwoJobs hrun hu
  exact ⟨tr, m, hrun, hstarted, (hadmitted (by simp [hstarted])).1, hprefix⟩

end GeekOS
