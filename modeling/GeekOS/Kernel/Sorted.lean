import GeekOS.Thread.RunqueueOrder
import GeekOS.Kernel.Control
import GeekOS.Kernel.Reachable

/-!
# The order of the run queue over runs

`thread_create` makes the new thread runnable while its process still has the priority zero of
`mem_alloc`, and stores `DEFAULT_PRIORITY` behind that. Under SJF and PRIORITY the order of the run
queue survives this store only if the queue admits it: `runqueueOrdered_iff_mayTakeDefault`.
-/

namespace GeekOS

open Result TransitionSystem

/-- A thread keeps its record, and its priority unless that is set late. -/
theorem Moves.priority {A : Label → Prop} {c c' : Config} {t : ThreadId}
    (h : Moves A c c') (hp : Placed c.1.toList c.2) (ht : ∃ th, c.2.threads t = some th) :
    (∃ th, c'.2.threads t = some th) ∧
      (c'.2.priority t = c.2.priority t ∨ c'.2.priority t = defaultPriority) := by
  have hI := h.invariant (I := fun c' => Placed c'.1.toList c'.2 ∧
    (∃ th, c'.2.threads t = some th) ∧
      (c'.2.priority t = c.2.priority t ∨ c'.2.priority t = defaultPriority)) ?_
    ⟨hp, ht, .inl rfl⟩
  · exact hI.2
  rintro l c₁ c₂ - ⟨hp, ⟨th₁, ht⟩, hprio⟩ hm
  refine ⟨hp.move hm, ?_⟩
  -- a store that keeps the priority of the record it changes
  have hkeep : ∀ {s s' : Sched} {u : ThreadId} {r r' : Thread},
      (s.priority t = c.2.priority t ∨ s.priority t = defaultPriority) →
      s.threads t = some th₁ → s.threads u = some r →
      s'.threads = Function.update s.threads u (some r') →
      r'.process.priority = r.process.priority →
      (∃ th, s'.threads t = some th) ∧
        (s'.priority t = c.2.priority t ∨ s'.priority t = defaultPriority) := by
    intro s s' u r r' hprio ht hu hs' hr
    have heq : s'.priority t = s.priority t := by
      have := congrFun (priority_setThread (s := s) hu hr) t
      unfold Sched.priority at this ⊢
      rwa [hs']
    refine ⟨?_, heq ▸ hprio⟩
    by_cases htu : t = u
    · exact ⟨r', by rw [hs', htu, Function.update_self]⟩
    · exact ⟨th₁, by rw [hs', Function.update_of_ne htu, ht]⟩
  -- a record of another thread
  have hnew : ∀ {s s' : Sched} {r : Thread}, t ≠ s.nextThread →
      (s.priority t = c.2.priority t ∨ s.priority t = defaultPriority) →
      s.threads t = some th₁ → s'.threads = Function.update s.threads s.nextThread (some r) →
      (∃ th, s'.threads t = some th) ∧
        (s'.priority t = c.2.priority t ∨ s'.priority t = defaultPriority) := by
    intro s s' r hne hprio ht hs'
    have hth : s'.threads t = some th₁ := by rw [hs', Function.update_of_ne hne, ht]
    rw [Sched.priority_of_threads ht] at hprio
    rw [Sched.priority_of_threads hth]
    exact ⟨⟨th₁, hth⟩, hprio⟩
  cases hm with
  | touch hth hstate hpr => exact hkeep hprio ht hth rfl hpr
  | dispatch hq hth => exact hkeep hprio ht hth rfl rfl
  | ready hth => exact hkeep hprio ht hth rfl rfl
  | wake hq hth => exact hkeep hprio ht hth rfl rfl
  | merge hq hth => exact hkeep hprio ht hth rfl rfl
  | detach hth => exact hkeep hprio ht hth rfl rfl
  | exit hth hstate hpr => exact hkeep hprio ht hth rfl hpr
  | spawn => exact hnew (hp.lt_nextThread ht).ne hprio ht rfl
  | spawnNew => exact hnew (hp.lt_nextThread ht).ne hprio ht rfl
  | @prioritize x s u r r' hth hstate hpr =>
    by_cases htu : t = u
    · subst htu
      have hself : (s.setThread t r').threads t = some r' := Function.update_self ..
      exact ⟨⟨r', hself⟩, .inr (by rw [Sched.priority_of_threads hself, hpr])⟩
    · refine ⟨⟨th₁, by rw [Sched.setThread_threads, Function.update_of_ne htu, ht]⟩, ?_⟩
      rwa [priority_setThread_of_ne htu]
  | globals | block | free | select | preemption | reschedule => exact ⟨⟨th₁, ht⟩, hprio⟩

/-- `thread_create` leaves the priority at zero when it makes the thread runnable. -/
theorem threadCreate_priority {mode : ThreadMode} {arrival : ℕ} {s s' : Sched} {t : ThreadId}
    (h : threadCreate mode arrival s = .ok (t, s')) :
    (∃ th, s'.threads t = some th) ∧ s'.priority t = 0 := by
  obtain ⟨rfl, rfl⟩ := threadCreate_eq_ok h
  refine ⟨⟨_, Function.update_self ..⟩, ?_⟩
  rw [Sched.priority_of_threads (Function.update_self ..)]
  cases mode <;> rfl

/-- The act belongs to a `thread_create` that has made the thread runnable. -/
def Act.Finishes (t : ThreadId) (a : Act) : Prop :=
  a = .thread (.createGenPid t) ∨ (∃ pid, a = .thread (.createPid t pid)) ∨
    a = .thread (.createPriority t)

/-- A thread for which a `thread_create` has not returned yet. -/
def Machine.Unfinished (m : Machine) (t : ThreadId) : Prop :=
  ∃ u, ∃ a ∈ m.acts u, a.Finishes t

/-- `thread_create` goes on with a thread that it has made runnable, or it has just done that. -/
theorem Act.Finishes.of_leadsTo {k : Kernel} {a b : Act} {t : ThreadId} (hb : b.Finishes t)
    (h : a.LeadsTo k b) :
    a.Finishes t ∨ t = k.sched.nextThread ∧ ∃ mode arrival, a = .thread (.createRun mode arrival) := by
  rcases hb with rfl | ⟨pid, rfl⟩ | rfl
  · cases h with
    | createGenPid => exact .inr ⟨rfl, _, _, rfl⟩
  · cases h with
    | createPid => exact .inl (.inl rfl)
  · cases h with
    | createPriority => exact .inl (.inr (.inl ⟨_, rfl⟩))

/-- In every reachable state, a thread whose `thread_create` has not returned has a record, with
priority zero, or already with the default one. -/
theorem reachable_unfinished {m : Machine} (h : Reachable Machine.Step boot m) {t : ThreadId}
    (ht : m.Unfinished t) : (∃ th, m.kernel.sched.threads t = some th) ∧
      (m.kernel.sched.priority t = 0 ∨ m.kernel.sched.priority t = defaultPriority) := by
  obtain ⟨tr, hrun⟩ := h
  induction hrun generalizing t with
  | nil =>
    obtain ⟨u, a, ha, hfin⟩ := ht
    rcases mem_boot_acts ha with rfl | rfl <;> simp [Act.Finishes] at hfin
  | @snoc m m' tr e hrun hs ih =>
    -- a thread that was unfinished keeps its record, and its priority is stored at most once more
    have hkeep : m.Unfinished t → (∃ th, m'.kernel.sched.threads t = some th) ∧
        (m'.kernel.sched.priority t = 0 ∨ m'.kernel.sched.priority t = defaultPriority) := by
      intro hold
      obtain ⟨hth, hprio⟩ := ih hold
      obtain ⟨hth', hprio'⟩ := (Machine.exec_moves hs.2).priority
        (reachable_placed ⟨tr, hrun⟩) hth
      refine ⟨hth', hprio'.elim (fun he => ?_) .inr⟩
      rw [show m'.kernel.sched.priority t = m.kernel.sched.priority t from he]
      exact hprio
    obtain ⟨u, b, hb, hfin⟩ := ht
    rcases Machine.mem_acts_of_step hs hb with hold | ⟨-, -, hcall, -⟩ |
      ⟨-, memory, a, rest, acts, k', rfl, hacts, hk, rfl, hmem⟩
    · exact hkeep ⟨u, b, hold, hfin⟩
    · rcases hfin with rfl | ⟨pid, rfl⟩ | rfl <;> simp [Act.isCall] at hcall
    · rcases hfin.of_leadsTo ((Act.run_follows hk).leadsTo hmem) with
        hfin | ⟨rfl, mode, arrival, rfl⟩
      · exact hkeep ⟨u, a, hacts ▸ List.mem_cons_self, hfin⟩
      · -- the thread has just been made
        have hstep := ThreadAct.run_step hk
        generalize m'.kernel = k at hstep ⊢
        cases hstep with
        | create hcreate =>
          obtain rfl := (threadCreate_eq_ok hcreate).1
          obtain ⟨hth, hprio⟩ := threadCreate_priority hcreate
          exact ⟨hth, .inl hprio⟩

namespace Machine

/-- The event is the store of another scheduler to `g_scheduler`. -/
def Selects (m : Machine) (e : Event) : Prop :=
  match e, m.acts m.current with
  | .resume _, .simulation (.setScheduler _ _) :: _ => True
  | _, _ => False

instance (m : Machine) (e : Event) : Decidable (m.Selects e) := by
  unfold Selects
  generalize m.acts m.current = acts
  induction e using Event.casesOn
  case resume memory =>
    induction acts using List.casesOn
    case cons a rest =>
      induction a using Act.casesOn
      case simulation a => induction a using SimulationAct.casesOn <;> infer_instance
      all_goals infer_instance
    all_goals infer_instance
  all_goals infer_instance

theorem selects_of_acts {m : Machine} {memory : Memory} {g : SchedulerKind} {quantum : ℕ}
    {rest : List Act} (h : m.acts m.current = .simulation (.setScheduler g quantum) :: rest) :
    m.Selects (.resume memory) := by
  simp [Selects, h]

/-- Nothing else selects a scheduler. -/
theorem Selects.of_allows {m : Machine} {e : Event} {g : SchedulerKind}
    (h : m.Allows e (.select g)) : m.Selects e := by
  cases e with
  | resume memory =>
    obtain ⟨a, rest, hacts, quantum, rfl⟩ := h
    exact selects_of_acts hacts
  | call | timer | keyboard => simp [Allows] at h

/-- Every other step leaves `g_scheduler` alone. -/
theorem gScheduler_eq {m m' : Machine} {e : Event} (hs : m.Step e m') (h : ¬m.Selects e) :
    m'.kernel.sched.gScheduler = m.kernel.sched.gScheduler :=
  (exec_moves hs.2).gScheduler_eq fun _ hl => h (.of_allows hl)

/-- The event is the store with which `thread_create` ends, that of the priority of `t`. -/
def StoresPriority (m : Machine) (e : Event) (t : ThreadId) : Prop :=
  ∃ memory rest, e = .resume memory ∧ m.acts m.current = .thread (.createPriority t) :: rest

variable {m m' : Machine} {e : Event} {since : ℕ}

/-- Every step but these keeps the order of the run queue. -/
theorem ordered_step (hp : Placed [m.current] m.kernel.sched) (h : Ordered since m.kernel.sched)
    (hs : m.Step e m') (hsel : ¬m.Selects e) (hstore : ∀ t, ¬m.StoresPriority e t) :
    Ordered since m'.kernel.sched := by
  have hI := (exec_moves hs.2).invariant
    (I := fun c => Placed c.1.toList c.2 ∧ Ordered since c.2) ?_ ⟨hp, h⟩
  · exact hI.2
  rintro l c c' hl ⟨hp, h⟩ hm
  refine ⟨hp.move hm, h.move hp ?_ ?_ hm⟩
  · rintro t rfl
    have := hl _ rfl
    cases e with
    | resume memory =>
      obtain ⟨a, rest, hacts, rfl⟩ := this
      exact hstore t ⟨memory, rest, rfl, hacts⟩
    | call | timer | keyboard => simp [Allows] at this
  · rintro g rfl
    exact hsel (.of_allows (hl _ rfl))

/-- The store of the priority keeps the order exactly if the queue admits it. -/
theorem ordered_storesPriority {t : ThreadId} (hr : Reachable Step boot m)
    (h : Ordered since m.kernel.sched) (hs : m.Step e m') (ht : m.StoresPriority e t) :
    m'.kernel.sched.gScheduler = m.kernel.sched.gScheduler ∧ m'.kernel.sched.Stamped ∧
      (m'.kernel.sched.RunqueueOrdered since ↔ m.kernel.sched.MayTakeDefault since t) := by
  obtain ⟨memory, rest, rfl, hacts⟩ := ht
  have hun := reachable_unfinished hr
    ⟨m.current, _, hacts ▸ List.mem_cons_self, .inr (.inr (Eq.refl (Act.thread (.createPriority t))))⟩
  obtain ⟨acts, k', hk, rfl⟩ := (exec_resume hacts).mp hs.2
  cases ThreadAct.run_step hk with
  | createPriority hstore =>
  obtain ⟨th, -, -, -, rfl⟩ := storeProcess_eq_ok hstore
  exact ⟨rfl, h.stamped, runqueueOrdered_prioritize h.runqueue ((reachable_placed hr).nodup _)
    hun.2 rfl⟩

end Machine

/-- From a state in which SJF or PRIORITY is selected and the run queue is in order, the run queue
is in order in every state of a run that selects no other scheduler, exactly if the queue admits
the default priority whenever a `thread_create` stores it. Threads that were in the queue at the
start need only be in order of priority: take the clock of the first state for `since`. -/
theorem runqueueOrdered_iff_mayTakeDefault {m₀ m : Machine} {tr : List (Machine × Event)}
    {since : ℕ} (hr : Reachable Machine.Step boot m₀)
    (hsorting : m₀.kernel.sched.gScheduler.Sorting)
    (hord : m₀.kernel.sched.RunqueueOrdered since)
    (h : Run Machine.Step m₀ tr m) (hsel : ∀ p ∈ tr, ¬p.1.Selects p.2) :
    (∀ n ∈ visited tr m, n.kernel.sched.RunqueueOrdered since) ↔
      ∀ p ∈ tr, ∀ t, p.1.StoresPriority p.2 t → p.1.kernel.sched.MayTakeDefault since t := by
  refine (h.restrict (C := fun m e => ¬m.Selects e) hsel).states_iff_steps
    (I := fun n => Reachable Machine.Step boot n ∧ n.kernel.sched.gScheduler.Sorting)
    (P := fun n => n.kernel.sched.RunqueueOrdered since)
    (C := fun n e => ∀ t, n.StoresPriority e t → n.kernel.sched.MayTakeDefault since t)
    ⟨hr, hsorting⟩ ?_ hord ?_
  · rintro n e n' ⟨hn, hsort⟩ ⟨hs, hsel⟩
    exact ⟨hn.tail hs, by rwa [Machine.gScheduler_eq hs hsel]⟩
  · rintro n e n' ⟨hn, hsort⟩ hord ⟨hs, hsel⟩
    have hordered : Ordered since n.kernel.sched := ⟨hsort, reachable_stamped hn, hord⟩
    by_cases hstore : ∃ t, n.StoresPriority e t
    · obtain ⟨t, ht⟩ := hstore
      have hiff := (Machine.ordered_storesPriority hn hordered hs ht).2.2
      rw [hiff]
      refine ⟨fun hmay u hu => ?_, fun hall => hall t ht⟩
      -- the act tells which thread it is
      obtain ⟨_, _, rfl, hacts⟩ := ht
      obtain ⟨_, _, -, hacts'⟩ := hu
      obtain ⟨rfl, -⟩ : t = u ∧ _ := by simpa [hacts] using hacts'
      exact hmay
    · rw [not_exists] at hstore
      exact iff_of_true (Machine.ordered_step (reachable_placed hn) hordered hs hsel hstore).runqueue
        fun t ht => absurd ht (hstore t)

/-- The menu selects SJF. -/
def selectSjf : List Event :=
  [.call (.simulation (.setScheduler .sjf 0)), .resume .available]

/-- A job with a burst time of 5 joins the run queue, then a thread made by `thread_create`. -/
def createBehindJob : List Event :=
  Machine.call (.thread (.createFromJob ⟨5, 5⟩ .detached .start)) 6 ++
    Machine.call (.thread .merge) 1 ++
    Machine.call (.thread (.create .detached (.thread false))) 8

/-- The law above on the run `createBehindJob`. -/
theorem runqueueOrdered_iff_createBehindJob :
    ∃ tr m, Run Machine.Step (Machine.after selectSjf) tr m ∧ tr.length = 18 ∧
      ((∀ n ∈ visited tr m, n.kernel.sched.RunqueueOrdered 0) ↔ ∀ p ∈ tr, ∀ t,
        p.1.StoresPriority p.2 t → p.1.kernel.sched.MayTakeDefault 0 t) := by
  have hsome : ((Machine.after selectSjf).runs createBehindJob).any
      (fun r => r.1.length = 18 ∧ ∀ p ∈ r.1, ¬p.1.Selects p.2) := by decide
  obtain ⟨⟨tr, m⟩, hr, hlen⟩ := (Option.any_eq_true _ _).mp hsome
  rw [decide_eq_true_iff] at hlen
  exact ⟨tr, m, Machine.run_of_runs hr, hlen.1, runqueueOrdered_iff_mayTakeDefault
    (Machine.reachable_after (by decide)) (by decide) (by decide) (Machine.run_of_runs hr) hlen.2⟩

/-- The run queue is in order when SJF is selected, and not behind `createBehindJob`: the new
thread, with priority 100, stands before the job, with priority 5. -/
theorem not_runqueueOrdered_createBehindJob :
    ∃ tr m, Reachable Machine.Step boot (Machine.after selectSjf) ∧
      (Machine.after selectSjf).kernel.sched.gScheduler = .sjf ∧
      (Machine.after selectSjf).kernel.sched.RunqueueOrdered 0 ∧
      Run Machine.Step (Machine.after selectSjf) tr m ∧ (∀ p ∈ tr, ¬p.1.Selects p.2) ∧
      ¬(m.kernel.sched.queue .runqueue).Pairwise
        (m.kernel.sched.priority · ≤ m.kernel.sched.priority ·) := by
  have hsome : ((Machine.after selectSjf).runs createBehindJob).any
      (fun r => (∀ p ∈ r.1, ¬p.1.Selects p.2) ∧
        ¬(r.2.kernel.sched.queue .runqueue).Pairwise
          (r.2.kernel.sched.priority · ≤ r.2.kernel.sched.priority ·)) := by decide
  obtain ⟨⟨tr, m⟩, hr, hend⟩ := (Option.any_eq_true _ _).mp hsome
  rw [decide_eq_true_iff] at hend
  exact ⟨tr, m, Machine.reachable_after (by decide), by decide, by decide,
    Machine.run_of_runs hr, hend⟩

end GeekOS
