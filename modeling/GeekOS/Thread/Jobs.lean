import GeekOS.Thread.RunqueueOrder

/-!
# The jobs of a simulation

`long_term_scheduler` makes a thread for each job of its list, in the new queue, and
`merge_new_with_runnable` moves them to the run queue. Both queues are filled by the selected
scheduler, so the jobs are sorted twice. This module says what happens to the jobs of one list,
given as pairs of a thread and its job in the order of submission.

* `scheduler_eq_insertAfter`: on a queue in order, each scheduler is one stable insertion;
* `jobOrder`: the order in which a scheduler is to run the jobs;
* `Sched.JobsWait`: the jobs stand in the new queue in that order, before they are admitted;
* `JobsRun`: behind that, the jobs dispatched and the jobs in the run queue make up that order,
  and a dispatched job has the CPU or has exited.

Every move of the process model that spares the jobs (`Label.Spares`) keeps both.
-/

namespace GeekOS

open Result StableInsert

/-! ## Schedulers as stable insertions -/

/-- The key by which a scheduler orders a queue. FCFS and RR do not look at the priority. -/
def SchedulerKind.key (g : SchedulerKind) (priority : ℤ) : ℤ :=
  if g.Sorting then priority else 0

/-- On a queue that is ordered by the key of the scheduler, the scheduler puts the thread behind
the last one with a key that is not larger. -/
theorem scheduler_eq_insertAfter {priority : ThreadId → ℤ} {g : SchedulerKind}
    {list : List ThreadId}
    (hl : list.Pairwise fun a b => g.key (priority a) ≤ g.key (priority b)) (node : ThreadId) :
    scheduler priority g list node = insertAfter (fun t => g.key (priority t)) node list := by
  by_cases hg : g.Sorting
  · have hkey : (fun t => g.key (priority t)) = priority := by
      funext t
      exact if_pos hg
    rw [scheduler_of_sorting hg, hkey]
    apply threadQueueInsertAtPriority_eq
    simpa only [SchedulerKind.key, if_pos hg] using hl
  · -- all keys are equal, so the thread goes to the tail
    rw [scheduler_of_not_sorting hg, insertAfter_eq_append fun y _ => ?_]
    · rfl
    · simp [SchedulerKind.key, if_neg hg]

/-- The key by which a scheduler orders the jobs. -/
def jobKey (g : SchedulerKind) (p : ThreadId × Job) : ℤ := g.key (jobPriority g p.2)

/-- The order in which the jobs are to be run: that of submission under FCFS, and the stable sort
by estimated burst time or by priority under SJF and PRIORITY. -/
def jobOrder (g : SchedulerKind) (jobs : List (ThreadId × Job)) : List ThreadId :=
  match g with
  | .sjf => (stableSort (fun p : ThreadId × Job => p.2.cpuBurst) jobs).map Prod.fst
  | .priority => (stableSort (fun p : ThreadId × Job => p.2.priority) jobs).map Prod.fst
  | .fcfs | .rr => jobs.map Prod.fst

/-- Under every scheduler this is the stable sort by the key. -/
theorem jobOrder_eq (g : SchedulerKind) (jobs : List (ThreadId × Job)) :
    jobOrder g jobs = (stableSort (jobKey g) jobs).map Prod.fst := by
  have hconst : ∀ g : SchedulerKind, ¬g.Sorting → stableSort (jobKey g) jobs = jobs := by
    intro g hg
    -- all keys are 0, so that the list is sorted as it stands
    refine stableSort_of_sorted (List.pairwise_of_forall fun a b => ?_)
    simp [jobKey, SchedulerKind.key, if_neg hg]
  cases g with
  | sjf | priority => rfl
  | fcfs | rr => rw [hconst _ id, jobOrder]

@[simp]
theorem jobOrder_nil (g : SchedulerKind) : jobOrder g [] = [] := by
  rw [jobOrder_eq, stableSort_of_sorted List.Pairwise.nil, List.map_nil]

theorem jobOrder_perm (g : SchedulerKind) (jobs : List (ThreadId × Job)) :
    (jobOrder g jobs).Perm (jobs.map Prod.fst) := by
  rw [jobOrder_eq]
  exact (stableSort_perm jobs).map _

theorem mem_jobOrder {g : SchedulerKind} {jobs : List (ThreadId × Job)} {t : ThreadId} :
    t ∈ jobOrder g jobs ↔ t ∈ jobs.map Prod.fst :=
  (jobOrder_perm g jobs).mem_iff

section Order

variable {priority : ThreadId → ℤ} {g : SchedulerKind} {jobs : List (ThreadId × Job)}

/-- The jobs stand in the order of their keys. -/
theorem pairwise_jobOrder (hprio : ∀ p ∈ jobs, priority p.1 = jobPriority g p.2) :
    (jobOrder g jobs).Pairwise fun a b => g.key (priority a) ≤ g.key (priority b) := by
  rw [jobOrder_eq, List.pairwise_map]
  have hsorted : (stableSort (jobKey g) jobs).Pairwise (jobKey g · ≤ jobKey g ·) :=
    sorted_stableSort jobs
  refine hsorted.imp_of_mem fun {a b} ha hb hab => ?_
  rw [hprio a ((stableSort_perm jobs).mem_iff.mp ha),
    hprio b ((stableSort_perm jobs).mem_iff.mp hb)]
  exact hab

/-- The scheduler puts one more job at its place. -/
theorem scheduler_jobOrder {t : ThreadId} {job : Job}
    (hprio : ∀ p ∈ jobs ++ [(t, job)], priority p.1 = jobPriority g p.2) :
    scheduler priority g (jobOrder g jobs) t = jobOrder g (jobs ++ [(t, job)]) := by
  have hold : ∀ p ∈ jobs, priority p.1 = jobPriority g p.2 :=
    fun p hp => hprio p (List.mem_append_left _ hp)
  rw [scheduler_eq_insertAfter (pairwise_jobOrder hold), jobOrder_eq, jobOrder_eq,
    stableSort_append_singleton]
  calc insertAfter (fun t => g.key (priority t)) t ((stableSort (jobKey g) jobs).map Prod.fst)
    _ = (insertAfter (fun p : ThreadId × Job => g.key (priority p.1)) (t, job)
          (stableSort (jobKey g) jobs)).map Prod.fst := insertAfter_map Prod.fst (t, job) _
    _ = (insertAfter (jobKey g) (t, job) (stableSort (jobKey g) jobs)).map Prod.fst := by
        -- the thread of a job has the priority of the job
        refine congrArg (List.map Prod.fst) (insertAfter_congr ?_ fun p hp => ?_)
        · exact congrArg g.key (hprio _ (by simp))
        · exact congrArg g.key (hold p ((stableSort_perm jobs).mem_iff.mp hp))

end Order

/-! ## The two operations -/

section Operations

variable {s s' : Sched}

theorem scheduleInto_queue_self (q : QueueId) (t : ThreadId) :
    (scheduleInto q t s).queue q = scheduler s.priority s.gScheduler (s.queue q) t := by
  simp [scheduleInto]

/-- What `thread_create_from_job` does when it returns. -/
theorem threadCreateFromJob_queue {process : Process} {mode : ThreadMode} {t : ThreadId}
    (h : threadCreateFromJob process mode s = .ok (t, s')) :
    t = s.nextThread ∧
      s'.priority = Function.update s.priority t process.priority ∧
      s'.queue = Function.update s.queue .newqueue
        (scheduler s'.priority s.gScheduler (s.queue .newqueue) t) ∧
      s'.gScheduler = s.gScheduler ∧ s'.dispatched = s.dispatched := by
  obtain ⟨rfl, rfl⟩ := threadCreateFromJob_eq_ok h
  refine ⟨rfl, ?_, rfl, rfl, rfl⟩
  -- only the new thread gets a priority
  funext u
  by_cases hu : u = s.nextThread
  · subst hu
    rw [Function.update_self, Sched.priority_of_threads (Function.update_self ..)]
    cases mode <;> rfl
  · rw [Function.update_of_ne hu]
    simp [Sched.priority, scheduleInto, Sched.enqueue, Sched.setQueue, allocThread,
      Function.update_of_ne hu]

/-- `merge_new_with_runnable` inserts the new threads one after the other into the run queue, if
that is in the order of the scheduler. -/
theorem mergeNewWithRunnable_queue
    (hl : (s.queue .runqueue).Pairwise fun a b =>
      s.gScheduler.key (s.priority a) ≤ s.gScheduler.key (s.priority b))
    (h : mergeNewWithRunnable s = .ok s') :
    s'.queue .runqueue = insertAll (fun t => s.gScheduler.key (s.priority t))
        (s.queue .newqueue) (s.queue .runqueue) ∧
      s'.queue .newqueue = [] ∧ s'.dispatched = s.dispatched := by
  -- the threads merged so far have been inserted, the others are still in the new queue
  have hrule := mergeNewWithRunnable_rule (I := fun a => a.priority = s.priority ∧
    a.gScheduler = s.gScheduler ∧ a.dispatched = s.dispatched ∧
    ∃ done, s.queue .newqueue = done ++ a.queue .newqueue ∧
      a.queue .runqueue = insertAll (fun t => s.gScheduler.key (s.priority t)) done
        (s.queue .runqueue)) ?_ ⟨rfl, rfl, rfl, [], rfl, rfl⟩ h
  · obtain ⟨⟨-, -, hdisp, done, hnew, hrun⟩, hempty⟩ := hrule
    rw [hempty, List.append_nil] at hnew
    exact ⟨hnew ▸ hrun, hempty, hdisp⟩
  rintro a b ⟨hprio, hg, hdisp, done, hnew, hrun⟩ hb
  obtain ⟨t, rest, th, hq, hth, -, -, rfl⟩ := mergeOne_eq_ok.mp hb
  have hprio' : (((a.setQueue .newqueue rest).setThread t { th with state := .ready }).priority) =
      s.priority := by
    rw [← hprio]
    exact priority_setThread (s := a.setQueue .newqueue rest) hth rfl
  refine ⟨hprio', hg, hdisp, done ++ [t], by simp [hnew, hq, scheduleInto], ?_⟩
  have hsorted : (a.queue .runqueue).Pairwise fun a b =>
      s.gScheduler.key (s.priority a) ≤ s.gScheduler.key (s.priority b) := by
    rw [hrun]
    exact sorted_insertAll hl
  rw [insertAll_append, ← hrun, insertAll_cons, insertAll_nil,
    ← scheduler_eq_insertAfter hsorted, scheduleInto_queue_self, hprio', ← hg]
  simp [Sched.setThread, Sched.setQueue]

end Operations

/-! ## Moves that spare the jobs -/

/-- The moves with this label leave the jobs alone: no job leaves the CPU or gets another priority,
no thread enters or leaves the new queue, and no other scheduler is selected. -/
def Label.Spares (jobs : List (ThreadId × Job)) : Label → Prop
  | .ready t | .block t _ | .prioritize t => t ∉ jobs.map Prod.fst
  | .merge | .spawnNew _ | .select _ => False
  | _ => True

/-- The thread has ended. -/
def Sched.Exited (s : Sched) (t : ThreadId) : Prop :=
  ∃ th, s.threads t = some th ∧ th.state = .exited

/-- The jobs dispatched so far, in their order. -/
def Sched.started (s : Sched) (jobs : List (ThreadId × Job)) : List ThreadId :=
  s.dispatched.filter (· ∈ jobs.map Prod.fst)

/-- Before they are admitted, the jobs stand in the new queue in their order, with their
priorities, and none has been dispatched. -/
structure Sched.JobsWait (g : SchedulerKind) (jobs : List (ThreadId × Job)) (s : Sched) :
    Prop where
  scheduler : s.gScheduler = g
  newqueue : s.queue .newqueue = jobOrder g jobs
  priority : ∀ p ∈ jobs, s.priority p.1 = jobPriority g p.2
  undispatched : ∀ t ∈ jobs.map Prod.fst, t ∉ s.dispatched

/-- Behind their admission, the jobs dispatched and the jobs in the run queue make up the order of
the jobs, and a dispatched job keeps the CPU until it has exited. -/
structure JobsRun (g : SchedulerKind) (jobs : List (ThreadId × Job)) (c : Config) : Prop where
  newqueue : c.2.queue .newqueue = []
  order : c.2.started jobs ++ (c.2.queue .runqueue).filter (· ∈ jobs.map Prod.fst) =
    jobOrder g jobs
  finished : ∀ t ∈ c.2.started jobs, c.1 = some t ∨ c.2.Exited t

section Moves

variable {g : SchedulerKind} {jobs : List (ThreadId × Job)} {c c' : Config} {s : Sched}
  {l : Option Label}

@[simp]
theorem Sched.mem_started {t : ThreadId} :
    t ∈ s.started jobs ↔ t ∈ s.dispatched ∧ t ∈ jobs.map Prod.fst := by
  simp [Sched.started]

theorem Sched.JobsWait.mem_newqueue (h : s.JobsWait g jobs) {t : ThreadId} :
    t ∈ s.queue .newqueue ↔ t ∈ jobs.map Prod.fst := by
  rw [h.newqueue, mem_jobOrder]

/-- A store into a record that keeps the priority. -/
theorem Sched.JobsWait.setThread {t : ThreadId} {th th' : Thread} (h : s.JobsWait g jobs)
    (hth : s.threads t = some th) (hprio : th'.process.priority = th.process.priority) :
    (s.setThread t th').JobsWait g jobs where
  scheduler := h.scheduler
  newqueue := h.newqueue
  priority p hp := by rw [priority_setThread hth hprio, h.priority p hp]
  undispatched := h.undispatched

/-- Queues other than the new queue do not matter. -/
theorem Sched.JobsWait.queue {s' : Sched} (h : s.JobsWait g jobs)
    (hsched : s'.gScheduler = s.gScheduler)
    (hnew : s'.queue .newqueue = s.queue .newqueue) (hthreads : s'.threads = s.threads)
    (hdisp : s'.dispatched = s.dispatched) : s'.JobsWait g jobs where
  scheduler := hsched.trans h.scheduler
  newqueue := hnew.trans h.newqueue
  priority p hp := by
    have := h.priority p hp
    unfold Sched.priority at this ⊢
    rwa [hthreads]
  undispatched := by simpa only [hdisp] using h.undispatched

/-- A thread joins the run queue. -/
theorem Sched.JobsWait.ready {t : ThreadId} {th : Thread} (h : s.JobsWait g jobs)
    (hth : s.threads t = some th) :
    (scheduleInto .runqueue t (s.setThread t { th with state := .ready })).JobsWait g jobs := by
  have hset : (s.setThread t { th with state := .ready }).JobsWait g jobs := h.setThread hth rfl
  exact hset.queue rfl (by simp [scheduleInto]) rfl rfl

/-- The jobs go on waiting through every move that spares them. -/
theorem Sched.JobsWait.move (h : c.2.JobsWait g jobs) (hp : Placed c.1.toList c.2)
    (hl : ∀ a, l = some a → a.Spares jobs) (hm : Move l c c') : c'.2.JobsWait g jobs := by
  cases hm with
  | touch hth hstate hprio => exact h.setThread hth hprio
  | globals | free | preemption | reschedule => exact h.queue rfl rfl rfl rfl
  | @dispatch s t rest th hq hth =>
    have htake : (s.setQueue .runqueue rest).JobsWait g jobs := h.queue rfl (by simp) rfl rfl
    have hset : ((s.setQueue .runqueue rest).setThread t { th with state := .running }).JobsWait
        g jobs := htake.setThread hth rfl
    refine ⟨hset.scheduler, hset.newqueue, hset.priority, fun u hu hdisp => ?_⟩
    rcases List.mem_append.mp hdisp with hdisp | hdisp
    · exact h.undispatched u hu hdisp
    · -- the thread dispatched was in the run queue, and the jobs are in the new queue
      obtain rfl := List.mem_singleton.mp hdisp
      have hrun : u ∈ s.queue .runqueue := by simp [hq]
      have hnew : u ∈ s.queue .newqueue := h.mem_newqueue.mpr hu
      simpa using hp.unique u _ _ hrun hnew
  | ready hth hrun => exact h.ready hth
  | block q hth hrun => exact h.queue rfl (by simp [threadQueueAppend]) rfl rfl
  | @wake x s t rest th q hq hth =>
    have htake : (s.setQueue (.wait q) rest).JobsWait g jobs := h.queue rfl (by simp) rfl rfl
    exact htake.ready hth
  | merge => exact (hl _ rfl).elim
  | @spawn x s th hstate =>
    refine ⟨h.scheduler, by simpa [scheduleInto, allocThread] using h.newqueue,
      fun p hpj => ?_, h.undispatched⟩
    -- a job has a record already
    have hne : p.1 ≠ s.nextThread := by
      rintro heq
      obtain ⟨_, hth, -⟩ := hp.live p.1
        (.inr ⟨_, h.mem_newqueue.mpr (List.mem_map_of_mem hpj)⟩)
      exact (hp.lt_nextThread hth).ne heq
    rw [← h.priority p hpj]
    exact priority_setThread_of_ne (s := { s with nextThread := s.nextThread + 1 }) hne
  | spawnNew => exact (hl _ rfl).elim
  | detach hth => exact h.setThread hth rfl
  | exit hth hstate hprio => exact h.setThread hth hprio
  | @prioritize x s t th th' hth =>
    -- `thread_create` stores the priority of a thread that is no job
    have hout : t ∉ jobs.map Prod.fst := hl _ rfl
    refine ⟨h.scheduler, h.newqueue, fun p hpj => ?_, h.undispatched⟩
    have hne : p.1 ≠ t := fun heq => hout (heq ▸ List.mem_map_of_mem hpj)
    rw [priority_setThread_of_ne hne, h.priority p hpj]
  | select => exact (hl _ rfl).elim

theorem Sched.JobsWait.moves {A : Label → Prop} (h : c.2.JobsWait g jobs)
    (hp : Placed c.1.toList c.2) (hA : ∀ a, A a → a.Spares jobs) (hm : Moves A c c') :
    c'.2.JobsWait g jobs := by
  have hI := hm.invariant (I := fun c => Placed c.1.toList c.2 ∧ c.2.JobsWait g jobs)
    (fun _ _ _ hl hI hm => ⟨hI.1.move hm, hI.2.move hI.1 (fun a ha => hA a (hl a ha)) hm⟩) ⟨hp, h⟩
  exact hI.2

/-- An exit is final: a store that keeps the state keeps it, and so does one into the record of a
thread that has not exited. -/
theorem Sched.Exited.setThread {t u : ThreadId} {th th' : Thread} (h : s.Exited u)
    (hth : s.threads t = some th) (hstate : th.state = .exited → th'.state = .exited) :
    (s.setThread t th').Exited u := by
  obtain ⟨thu, hthu, hex⟩ := h
  by_cases hut : u = t
  · subst hut
    obtain rfl := Option.some.inj (hth.symm.trans hthu)
    exact ⟨th', by simp, hstate hex⟩
  · exact ⟨thu, by simpa [Function.update_of_ne hut] using hthu, hex⟩

namespace JobsRun

/-- A job that is in no place where it would have a record does not exist: every job has one. -/
theorem exists_record (h : JobsRun g jobs c) (hp : Placed c.1.toList c.2) {t : ThreadId}
    (ht : t ∈ jobs.map Prod.fst) : ∃ th, c.2.threads t = some th := by
  have hmem : t ∈ jobOrder g jobs := mem_jobOrder.mpr ht
  rw [← h.order, List.mem_append] at hmem
  rcases hmem with hstarted | hrun
  · rcases h.finished t hstarted with hcur | ⟨th, hth, -⟩
    · obtain ⟨th, hth, -⟩ := hp.live t (.inl (by simp [hcur]))
      exact ⟨th, hth⟩
    · exact ⟨th, hth⟩
  · obtain ⟨th, hth, -⟩ := hp.live t (.inr ⟨.runqueue, List.mem_of_mem_filter hrun⟩)
    exact ⟨th, hth⟩

/-- No job sleeps: it has the CPU, has exited or is in the run queue. -/
theorem not_mem_wait (h : JobsRun g jobs c) (hp : Placed c.1.toList c.2) {t : ThreadId}
    {q : WaitQueue} (ht : t ∈ c.2.queue (.wait q)) : t ∉ jobs.map Prod.fst := by
  intro hjob
  have hmem : t ∈ jobOrder g jobs := mem_jobOrder.mpr hjob
  rw [← h.order, List.mem_append] at hmem
  rcases hmem with hstarted | hrun
  · rcases h.finished t hstarted with hcur | ⟨th, hth, hex⟩
    · exact hp.outside t (by simp [hcur]) _ ht
    · exact hp.not_exited (.inr ⟨_, ht⟩) hth hex
  · simpa using hp.unique t _ _ (List.mem_of_mem_filter hrun) ht

/-- A store into a record that does not undo an exit. -/
theorem setThread {x : Option ThreadId} {t : ThreadId} {th th' : Thread}
    (h : JobsRun g jobs (x, s)) (hth : s.threads t = some th)
    (hstate : th.state = .exited → th'.state = .exited) : JobsRun g jobs (x, s.setThread t th') where
  newqueue := h.newqueue
  order := h.order
  finished u hu := (h.finished u hu).imp_right fun hex => hex.setThread hth hstate

/-- The new queue, the jobs in the run queue, the jobs dispatched and the records are all that
matters. -/
theorem congr {x : Option ThreadId} {s' : Sched} (h : JobsRun g jobs (x, s))
    (hnew : s'.queue .newqueue = s.queue .newqueue)
    (hrun : (s'.queue .runqueue).filter (· ∈ jobs.map Prod.fst) =
      (s.queue .runqueue).filter (· ∈ jobs.map Prod.fst))
    (hthreads : s'.threads = s.threads) (hdisp : s'.dispatched = s.dispatched) :
    JobsRun g jobs (x, s') := by
  have hstarted : s'.started jobs = s.started jobs := by rw [Sched.started, hdisp, Sched.started]
  refine ⟨hnew.trans h.newqueue, ?_, fun u hu => ?_⟩
  · show s'.started jobs ++ _ = _
    rw [hstarted, hrun]
    exact h.order
  · refine (h.finished u (hstarted ▸ hu)).imp_right fun hex => ?_
    unfold Sched.Exited at hex ⊢
    rwa [hthreads]

/-- A thread other than the jobs joins the run queue. -/
theorem ready {x : Option ThreadId} {t : ThreadId} {th : Thread} (h : JobsRun g jobs (x, s))
    (hth : s.threads t = some th) (hlive : th.state ≠ .exited) (ht : t ∉ jobs.map Prod.fst) :
    JobsRun g jobs (x, scheduleInto .runqueue t (s.setThread t { th with state := .ready })) := by
  have hset : JobsRun g jobs (x, s.setThread t { th with state := .ready }) :=
    h.setThread hth fun hex => absurd hex hlive
  refine hset.congr (by simp [scheduleInto]) ?_ rfl rfl
  rw [scheduleInto_queue_self, (splits_scheduler _ _ _).filter_neg (by simpa using ht)]

/-- A thread other than the jobs leaves the CPU: all jobs dispatched have exited then. -/
theorem leave {t : ThreadId} (h : JobsRun g jobs (some t, s)) (ht : t ∉ jobs.map Prod.fst) :
    JobsRun g jobs (none, s) where
  newqueue := h.newqueue
  order := h.order
  finished u hu := by
    rcases h.finished u hu with hcur | hex
    · obtain rfl := Option.some.inj hcur
      exact absurd (Sched.mem_started.mp hu).2 ht
    · exact .inr hex

/-- Every move that spares the jobs keeps the order of the jobs dispatched and still to run. -/
theorem move (h : JobsRun g jobs c) (hp : Placed c.1.toList c.2)
    (hl : ∀ a, l = some a → a.Spares jobs) (hm : Move l c c') : JobsRun g jobs c' := by
  cases hm with
  | touch hth hstate => exact h.setThread hth hstate.trans
  | globals | free | preemption | reschedule => exact h.congr rfl rfl rfl rfl
  | @dispatch s t rest th hq hth =>
    have hlive := hp.not_exited (.inr ⟨_, hq ▸ List.mem_cons_self⟩) hth
    refine ⟨by simpa using h.newqueue, ?_, fun u hu => ?_⟩
    · -- a job at the head of the run queue becomes the last one dispatched
      have horder := h.order
      simp only [Sched.started, hq, List.filter_cons] at horder
      simp only [Sched.started, List.filter_append, List.filter_cons, List.filter_nil,
        Sched.setThread_queue, Sched.setQueue_queue, Function.update_self, ← horder]
      split <;> simp
    · obtain ⟨hdisp, hjob⟩ := Sched.mem_started.mp hu
      rcases List.mem_append.mp hdisp with hdisp | hdisp
      · -- nobody has the CPU, so the jobs dispatched before have exited
        have hex : (s.setQueue .runqueue rest).Exited u :=
          (h.finished u (Sched.mem_started.mpr ⟨hdisp, hjob⟩)).resolve_left (by simp)
        have hex' : ((s.setQueue .runqueue rest).setThread t { th with state := .running }).Exited
            u := hex.setThread hth fun hex => absurd hex hlive
        exact .inr hex'
      · exact .inl (congrArg some (List.mem_singleton.mp hdisp).symm)
  | ready hth hrun =>
    have hout : _ ∉ jobs.map Prod.fst := hl _ rfl
    exact (h.leave hout).ready hth (by simp [hrun]) hout
  | block q hth hrun =>
    have hout : _ ∉ jobs.map Prod.fst := hl _ rfl
    exact (h.leave hout).congr (by simp [threadQueueAppend]) (by simp [threadQueueAppend]) rfl rfl
  | @wake x s t rest th q hq hth =>
    have hmem : t ∈ s.queue (.wait q) := by simp [hq]
    have htake : JobsRun g jobs (x, s.setQueue (.wait q) rest) :=
      h.congr (by simp) (by simp) rfl rfl
    exact htake.ready hth (hp.not_exited (.inr ⟨_, hmem⟩) hth) (h.not_mem_wait hp hmem)
  | merge => exact (hl _ rfl).elim
  | @spawn x s th hstate =>
    -- the jobs exist already, so the thread made here is none of them
    have hnone : s.threads s.nextThread = none := hp.fresh _ le_rfl
    have hout : s.nextThread ∉ jobs.map Prod.fst := by
      intro hjob
      obtain ⟨_, hth⟩ := h.exists_record hp hjob
      simp [hnone] at hth
    refine ⟨by simpa [scheduleInto, allocThread] using h.newqueue, ?_, fun u hu => ?_⟩
    · rw [scheduleInto_queue_self, (splits_scheduler _ _ _).filter_neg (by simpa using hout)]
      exact h.order
    · refine (h.finished u hu).imp_right fun hexited => ?_
      obtain ⟨thu, hthu, hex⟩ := hexited
      have hne : u ≠ s.nextThread := (hp.lt_nextThread hthu).ne
      exact ⟨thu, by simpa [scheduleInto, allocThread, Function.update_of_ne hne] using hthu, hex⟩
  | spawnNew => exact (hl _ rfl).elim
  | detach hth => exact h.setThread hth id
  | @exit s t th th' hth hstate =>
    -- the current thread exits: a job that had the CPU is finished now
    refine ⟨h.newqueue, h.order, fun u hu => .inr ?_⟩
    rcases h.finished u hu with hcur | hex
    · obtain rfl := Option.some.inj hcur
      exact ⟨th', by simp, hstate⟩
    · exact hex.setThread hth fun _ => hstate
  | prioritize hth hstate => exact h.setThread hth hstate.trans
  | select => exact (hl _ rfl).elim

theorem moves {A : Label → Prop} (h : JobsRun g jobs c) (hp : Placed c.1.toList c.2)
    (hA : ∀ a, A a → a.Spares jobs) (hm : Moves A c c') : JobsRun g jobs c' := by
  -- `Placed` is carried along, since each move needs it
  have hI := hm.invariant (I := fun c => Placed c.1.toList c.2 ∧ JobsRun g jobs c)
    (fun _ _ _ hl hI hm => ⟨hI.1.move hm, hI.2.move hI.1 (fun a ha => hA a (hl a ha)) hm⟩) ⟨hp, h⟩
  exact hI.2

end JobsRun

end Moves

/-! ## Submission and admission -/

section Admission

variable {g : SchedulerKind} {jobs : List (ThreadId × Job)} {s s' : Sched} {F : List ThreadId}

/-- `thread_create_from_job` puts one more job to its place in the new queue, with the priority that
is stored in its process. -/
theorem Sched.JobsWait.threadCreateFromJob {job : Job} {process : Process} {mode : ThreadMode}
    {t : ThreadId} (h : s.JobsWait g jobs) (hp : Placed F s) (hdisp : t ∉ s.dispatched)
    (hprocess : process.priority = jobPriority g job)
    (hcreate : threadCreateFromJob process mode s = .ok (t, s')) :
    s'.JobsWait g (jobs ++ [(t, job)]) := by
  obtain ⟨rfl, hprio, hqueue, hsched, hdisp'⟩ := threadCreateFromJob_queue hcreate
  have hpriority : ∀ p ∈ jobs ++ [(s.nextThread, job)], s'.priority p.1 = jobPriority g p.2 := by
    intro p hpj
    rcases List.mem_append.mp hpj with hpj | hpj
    · -- the new thread is none of those that are waiting
      have hne : p.1 ≠ s.nextThread := by
        intro heq
        obtain ⟨_, hth, -⟩ := hp.live p.1
          (.inr ⟨_, h.mem_newqueue.mpr (List.mem_map_of_mem hpj)⟩)
        exact (hp.lt_nextThread hth).ne heq
      rw [hprio, Function.update_of_ne hne, h.priority p hpj]
    · obtain rfl := List.mem_singleton.mp hpj
      rw [hprio, Function.update_self, hprocess]
  refine ⟨hsched.trans h.scheduler, ?_, hpriority, fun u hu => ?_⟩
  · rw [hqueue, Function.update_self, h.newqueue, h.scheduler]
    exact scheduler_jobOrder hpriority
  · rw [hdisp']
    rw [List.map_append, List.mem_append] at hu
    rcases hu with hu | hu
    · exact h.undispatched u hu
    · obtain rfl : u = s.nextThread := by simpa using hu
      exact hdisp

/-- `merge_new_with_runnable` admits the jobs. All other threads in the run queue have the same
priority, so that the queue is in order, and among the jobs nothing changes. -/
theorem Sched.JobsWait.mergeNewWithRunnable {x : Option ThreadId} (h : s.JobsWait g jobs)
    (hp : Placed F s)
    (hother : ∀ t ∈ s.queue .runqueue, t ∉ jobs.map Prod.fst → s.priority t = defaultPriority)
    (hmerge : mergeNewWithRunnable s = .ok s') : JobsRun g jobs (x, s') := by
  have hrun : ∀ t ∈ s.queue .runqueue, t ∉ jobs.map Prod.fst := by
    intro t ht hjob
    simpa using hp.unique t _ _ ht (h.mem_newqueue.mpr hjob)
  have hsorted : (s.queue .runqueue).Pairwise fun a b =>
      s.gScheduler.key (s.priority a) ≤ s.gScheduler.key (s.priority b) := by
    refine List.pairwise_of_forall_mem_list fun a ha b hb => ?_
    rw [hother a ha (hrun a ha), hother b hb (hrun b hb)]
  obtain ⟨hqueue, hnew, hdisp⟩ := mergeNewWithRunnable_queue hsorted hmerge
  -- none has been dispatched, so the run queue alone makes up the order
  have hnone : s'.started jobs = [] := by
    rw [Sched.started, hdisp, List.filter_eq_nil_iff]
    intro t ht hjob
    exact h.undispatched t (by simpa using hjob) ht
  refine ⟨hnew, ?_, fun t ht => ?_⟩
  · have hempty : (s.queue .runqueue).filter (· ∈ jobs.map Prod.fst) = [] :=
      List.filter_eq_nil_iff.mpr fun t ht => by simpa using hrun t ht
    have hall : ∀ t ∈ jobOrder g jobs, decide (t ∈ jobs.map Prod.fst) = true :=
      fun t ht => decide_eq_true (mem_jobOrder.mp ht)
    calc s'.started jobs ++ (s'.queue .runqueue).filter (· ∈ jobs.map Prod.fst)
      _ = (insertAll (fun t => s.gScheduler.key (s.priority t)) (s.queue .newqueue)
            (s.queue .runqueue)).filter (· ∈ jobs.map Prod.fst) := by
          rw [hnone, hqueue, List.nil_append]
      _ = insertAll (fun t => g.key (s.priority t)) (jobOrder g jobs) [] := by
          rw [filter_insertAll (by rwa [h.newqueue]) hsorted, hempty, h.newqueue, h.scheduler]
      _ = jobOrder g jobs := by
          rw [insertAll_empty, stableSort_of_sorted (pairwise_jobOrder h.priority)]
  · rw [show (x, s').2.started jobs = [] from hnone] at ht
    exact absurd ht List.not_mem_nil

end Admission

end GeekOS
