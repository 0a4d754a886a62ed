import GeekOS.Thread.Stamps

/-!
# The order of the run queue

Under SJF and PRIORITY the run queue is ordered by priority, and threads of equal priority stand
in the order in which they joined it.

* `RunqueueOrdered since`: the order, where threads that joined before `since` are only required
  to be in order of priority;
* `Ordered.move`: every move keeps it, but `prioritize`, which changes the priority of a thread
  that is in the queue already, and `select`;
* `runqueueOrdered_prioritize`: when that move keeps it.
-/

namespace GeekOS

open StableInsert

namespace Sched

variable (s : Sched)

/-- `a` may stand before `b` in the run queue. -/
def Before (since : ℕ) (a b : ThreadId) : Prop :=
  s.priority a ≤ s.priority b ∧
    (s.priority a = s.priority b → since ≤ s.stamp a → s.stamp a < s.stamp b)

/-- The run queue is in order of priority, and among equal priorities in order of arrival for all
that have arrived from `since` on. -/
def RunqueueOrdered (since : ℕ) : Prop :=
  (s.queue .runqueue).Pairwise (s.Before since)

instance (since : ℕ) (a b : ThreadId) : Decidable (s.Before since a b) :=
  inferInstanceAs (Decidable (_ ∧ (_ → _ → _)))

instance (since : ℕ) : Decidable (s.RunqueueOrdered since) :=
  inferInstanceAs (Decidable (List.Pairwise _ _))

end Sched

section Frame

variable {s : Sched} {t u : ThreadId} {th th' : Thread}

/-- A store that keeps the priority of a thread keeps all priorities. -/
theorem priority_setThread (hth : s.threads t = some th)
    (hprio : th'.process.priority = th.process.priority) :
    (s.setThread t th').priority = s.priority := by
  funext u
  by_cases hu : u = t
  · rw [hu, Sched.priority_of_threads hth,
      Sched.priority_of_threads (s := s.setThread t th') (Function.update_self ..), hprio]
  · simp [Sched.priority, Function.update_of_ne hu]

theorem priority_setThread_of_ne (hu : u ≠ t) :
    (s.setThread t th').priority u = s.priority u := by
  simp [Sched.priority, Function.update_of_ne hu]

end Frame

/-! ## The order -/

/-- What is kept about the run queue while a scheduler that sorts is selected. -/
structure Ordered (since : ℕ) (s : Sched) : Prop where
  sorting : s.gScheduler.Sorting
  stamped : s.Stamped
  runqueue : s.RunqueueOrdered since

namespace Ordered

variable {since : ℕ} {s s' : Sched} {t : ThreadId}

/-- Only the scheduler, the queues, the priorities and the history matter. -/
theorem congr (h : Ordered since s) (hsched : s'.gScheduler = s.gScheduler)
    (hqueue : s'.queue = s.queue) (hprio : s'.priority = s.priority) (hclock : s'.clock = s.clock)
    (hstamp : s'.stamp = s.stamp) : Ordered since s' := by
  obtain ⟨hsorting, hstamped, hrun⟩ := h
  refine ⟨hsched ▸ hsorting, fun q t ht => ?_, ?_⟩
  · rw [hqueue] at ht
    rw [hstamp, hclock]
    exact hstamped q t ht
  · unfold Sched.RunqueueOrdered Sched.Before at *
    rwa [hqueue, hprio, hstamp]

theorem setThread {th th' : Thread} (h : Ordered since s) (hth : s.threads t = some th)
    (hprio : th'.process.priority = th.process.priority) : Ordered since (s.setThread t th') :=
  h.congr rfl rfl (priority_setThread hth hprio) rfl rfl

/-- The head of a queue is taken out. -/
theorem take {q : QueueId} {rest : List ThreadId} (h : Ordered since s)
    (hq : s.queue q = t :: rest) : Ordered since (s.setQueue q rest) where
  sorting := h.sorting
  stamped := stamped_setQueue h.stamped hq
  runqueue := by
    have hrun := h.runqueue
    change ((s.setQueue q rest).queue .runqueue).Pairwise (s.Before since)
    by_cases hqr : q = .runqueue
    · subst hqr
      unfold Sched.RunqueueOrdered at hrun
      rw [hq] at hrun
      rw [Sched.setQueue_queue, Function.update_self]
      exact (List.pairwise_cons.mp hrun).2
    · rw [Sched.setQueue_queue, Function.update_of_ne (Ne.symm hqr)]
      exact hrun

/-- The priorities in the run queue do not decrease. -/
theorem sorted (h : Ordered since s) :
    (s.queue .runqueue).Pairwise (s.priority · ≤ s.priority ·) :=
  h.runqueue.imp fun hab => hab.1

/-- A thread that is in no queue joins a queue other than the run queue. -/
theorem put {q : QueueId} {r : List ThreadId} (h : Ordered since s)
    (hr : Splits (s.queue q) t r) (hq : q ≠ .runqueue) (hout : t ∉ s.queue .runqueue) :
    Ordered since (s.enqueue q r t) where
  sorting := h.sorting
  stamped := stamped_enqueue h.stamped hr
  runqueue := by
    unfold Sched.RunqueueOrdered
    rw [Sched.enqueue_queue, Function.update_of_ne (Ne.symm hq)]
    refine h.runqueue.imp_of_mem fun {a b} ha hb hab => ?_
    have hat : a ≠ t := fun he => hout (he ▸ ha)
    have hbt : b ≠ t := fun he => hout (he ▸ hb)
    refine ⟨hab.1, ?_⟩
    change _ → since ≤ Function.update s.stamp t s.clock a →
      Function.update s.stamp t s.clock a < Function.update s.stamp t s.clock b
    rw [Function.update_of_ne hat, Function.update_of_ne hbt]
    exact hab.2

/-- A thread that is in no queue joins the run queue: behind those of equal or smaller
priority. -/
theorem schedule (h : Ordered since s) (hout : t ∉ s.queue .runqueue) :
    Ordered since (scheduleInto .runqueue t s) where
  sorting := h.sorting
  stamped := stamped_enqueue h.stamped (splits_scheduler _ _ _)
  runqueue := by
    set s' := scheduleInto .runqueue t s with hs'
    have hqueue : s'.queue .runqueue = insertAfter s.priority t (s.queue .runqueue) := by
      rw [hs', scheduleInto, Sched.enqueue_queue, Function.update_self,
        scheduler_of_sorting h.sorting, threadQueueInsertAtPriority_eq t h.sorted]
    have hnew : s'.stamp t = s.clock := Function.update_self ..
    have hold : ∀ u ∈ s.queue .runqueue, s'.stamp u = s.stamp u := fun u hu => by
      have hne : u ≠ t := fun he => hout (he ▸ hu)
      exact Function.update_of_ne hne ..
    have hlt : ∀ u ∈ s.queue .runqueue, s'.stamp u < s'.stamp t := fun u hu => by
      rw [hold u hu, hnew]
      exact h.stamped _ u hu
    unfold Sched.RunqueueOrdered
    rw [hqueue]
    refine pairwise_insertAfter (fun a b hab => hab.1) ?_ ?_ ?_
    · -- the old threads among themselves
      refine h.runqueue.imp_of_mem fun {a b} ha hb hab => ⟨hab.1, fun he hsince => ?_⟩
      rw [hold a ha] at hsince ⊢
      rw [hold b hb]
      exact hab.2 he hsince
    · exact fun y hy hle => ⟨hle, fun _ _ => hlt y hy⟩
    · exact fun y hy hlt' => ⟨hlt'.le, fun he => absurd he hlt'.ne⟩

/-- The same behind a store into the record that keeps the priority. -/
theorem setThread_schedule {th th' : Thread} (h : Ordered since s) (hth : s.threads t = some th)
    (hprio : th'.process.priority = th.process.priority) (hout : t ∉ s.queue .runqueue) :
    Ordered since (scheduleInto .runqueue t (s.setThread t th')) :=
  (h.setThread hth hprio).schedule hout

/-- A new record, of a thread that is in no queue. -/
theorem alloc {th : Thread} (h : Ordered since s) (hout : ∀ q, s.nextThread ∉ s.queue q) :
    Ordered since (allocThread th s).2 where
  sorting := h.sorting
  stamped := h.stamped
  runqueue := by
    refine h.runqueue.imp_of_mem fun {a b} ha hb hab => ?_
    have hprio : ∀ u ∈ s.queue .runqueue, (allocThread th s).2.priority u = s.priority u :=
      fun u hu => priority_setThread_of_ne (s := { s with nextThread := s.nextThread + 1 })
        fun he => hout .runqueue (he ▸ hu)
    unfold Sched.Before
    rw [hprio a ha, hprio b hb]
    exact hab

/-- Every move but `prioritize` and `select` keeps the order. -/
theorem move {l : Option Label} {c c' : Config} (h : Ordered since c.2)
    (hp : Placed c.1.toList c.2) (hprio : ∀ t, l ≠ some (.prioritize t))
    (hselect : ∀ g, l ≠ some (.select g)) (hm : Move l c c') : Ordered since c'.2 := by
  cases hm with
  | touch hth hstate hpr => exact h.setThread hth hpr
  | globals => exact h.congr rfl rfl rfl rfl rfl
  | @dispatch s t rest th hq hth =>
    have hset := (h.take hq).setThread hth
      (show Process.priority (Thread.process { th with state := .running }) = _ from rfl)
    exact hset.congr rfl rfl rfl rfl rfl
  | ready hth hrun => exact h.setThread_schedule hth rfl (hp.outside _ (by simp) _)
  | block q hth hrun => exact h.put (Splits.append _ _) (by simp) (hp.outside _ (by simp) _)
  | wake hq hth =>
    exact (h.take hq).setThread_schedule hth rfl ((hp.take hq).outside _ List.mem_cons_self _)
  | merge hq hth =>
    exact (h.take hq).setThread_schedule hth rfl ((hp.take hq).outside _ List.mem_cons_self _)
  | @spawn x s th hstate =>
    have hne : th.state ≠ .exited := by simp [hstate]
    have hnew := hp.alloc hne
    have hout := fun q => hnew.outside s.nextThread List.mem_cons_self q
    exact (h.alloc hout).schedule (hout _)
  | @spawnNew x s th hstate =>
    have hne : th.state ≠ .exited := by simp [hstate]
    have hnew := hp.alloc hne
    have hout := fun q => hnew.outside s.nextThread List.mem_cons_self q
    exact (h.alloc hout).put (splits_scheduler _ _ _) (by simp) (hout _)
  | detach hth => exact h.setThread hth rfl
  | exit hth hstate hpr => exact h.setThread hth hpr
  | prioritize => exact absurd rfl (hprio _)
  | free | preemption | reschedule => exact h.congr rfl rfl rfl rfl rfl
  | select => exact absurd rfl (hselect _)

end Ordered

/-! ## The late priority -/

/-- The run queue admits that `t` takes the priority `DEFAULT_PRIORITY` where it stands: all behind
it have a larger one, or an equal one and came later. -/
def Sched.MayTakeDefault (s : Sched) (since : ℕ) (t : ThreadId) : Prop :=
  ∀ l₁ l₂, s.queue .runqueue = l₁ ++ t :: l₂ → ∀ b ∈ l₂, defaultPriority < s.priority b ∨
    defaultPriority = s.priority b ∧ (since ≤ s.stamp t → s.stamp t < s.stamp b)

/-- A thread whose priority was not above `DEFAULT_PRIORITY` gets that priority: the order is kept
exactly if the queue admits it. -/
theorem runqueueOrdered_prioritize {since : ℕ} {s : Sched} {t : ThreadId} {th' : Thread}
    (h : s.RunqueueOrdered since) (hnodup : (s.queue .runqueue).Nodup)
    (hold : s.priority t = 0 ∨ s.priority t = defaultPriority)
    (hnew : th'.process.priority = defaultPriority) :
    (s.setThread t th').RunqueueOrdered since ↔ s.MayTakeDefault since t := by
  set s' := s.setThread t th' with hs'
  have ht : s'.priority t = defaultPriority := by
    rw [hs', Sched.priority_of_threads (s := s.setThread t th') (Function.update_self ..), hnew]
  have hne : ∀ u ≠ t, s'.priority u = s.priority u := fun u hu => priority_setThread_of_ne hu
  by_cases hmem : t ∈ s.queue .runqueue
  · obtain ⟨l₁, l₂, hl⟩ := List.append_of_mem hmem
    rw [hl] at hnodup
    have hout : t ∉ l₁ ∧ t ∉ l₂ := by
      have := List.nodup_middle.mp hnodup
      simpa [not_or] using (List.nodup_cons.mp this).1
    have hbefore : ∀ a ∈ l₁, a ≠ t := fun a ha he => hout.1 (he ▸ ha)
    have hbehind : ∀ b ∈ l₂, b ≠ t := fun b hb he => hout.2 (he ▸ hb)
    have hmay : s.MayTakeDefault since t ↔ ∀ b ∈ l₂, defaultPriority < s.priority b ∨
        defaultPriority = s.priority b ∧ (since ≤ s.stamp t → s.stamp t < s.stamp b) := by
      refine ⟨fun hmay => hmay l₁ l₂ hl, fun hall l₁' l₂' hl' => ?_⟩
      obtain ⟨-, -, rfl⟩ :=
        (List.append_cons_inj_of_notMem hout.1 hout.2).mp (hl.symm.trans hl')
      exact hall
    rw [hmay]
    unfold Sched.RunqueueOrdered at h ⊢
    change (s.queue .runqueue).Pairwise (s'.Before since) ↔ _
    rw [hl] at h ⊢
    rw [List.pairwise_append, List.pairwise_cons] at h ⊢
    obtain ⟨h₁, ⟨htl₂, h₂⟩, h₁₂⟩ := h
    constructor
    · rintro ⟨-, ⟨hall, -⟩, -⟩ b hb
      obtain ⟨hle, heq⟩ := hall b hb
      rw [ht, hne b (hbehind b hb)] at hle heq
      rcases hle.lt_or_eq with hlt | he
      · exact .inl hlt
      · exact .inr ⟨he, heq he⟩
    · intro hall
      have hkeep : ∀ {a b}, a ≠ t → b ≠ t → s.Before since a b → s'.Before since a b := by
        intro a b ha hb hab
        unfold Sched.Before
        rw [hne a ha, hne b hb]
        exact hab
      refine ⟨h₁.imp_of_mem fun ha hb => hkeep (hbefore _ ha) (hbefore _ hb),
        ⟨fun b hb => ?_, h₂.imp_of_mem fun ha hb => hkeep (hbehind _ ha) (hbehind _ hb)⟩,
        fun a ha b hb => ?_⟩
      · refine ⟨?_, ?_⟩
        · rw [ht, hne b (hbehind b hb)]
          rcases hall b hb with hlt | ⟨he, -⟩
          · exact hlt.le
          · exact he.le
        · rw [ht, hne b (hbehind b hb)]
          rcases hall b hb with hlt | ⟨-, hstamp⟩
          · exact fun he => absurd he hlt.ne
          · exact fun _ => hstamp
      · rcases List.mem_cons.mp hb with rfl | hb
        · -- those before `t` had a priority that was not above its old one
          obtain ⟨hle, heq⟩ := h₁₂ a ha _ List.mem_cons_self
          refine ⟨?_, ?_⟩
          · rw [ht, hne a (hbefore a ha)]
            rcases hold with hold | hold
            · exact hle.trans (hold.le.trans (by decide))
            · exact hle.trans hold.le
          · rw [ht, hne a (hbefore a ha)]
            intro he
            rcases hold with hold | hold
            · rw [he, hold] at hle
              exact absurd hle (by decide)
            · exact heq (he.trans hold.symm)
        · exact hkeep (hbefore a ha) (hbehind b hb) (h₁₂ a ha b (List.mem_cons_of_mem _ hb))
  · -- the priority of a thread outside the run queue does not matter
    have hmay : s.MayTakeDefault since t := fun l₁ l₂ hl => absurd (by simp [hl]) hmem
    refine iff_of_true ?_ hmay
    refine h.imp_of_mem fun {a b} ha hb hab => ?_
    unfold Sched.Before
    rw [hne a fun he => hmem (he ▸ ha), hne b fun he => hmem (he ▸ hb)]
    exact hab

end GeekOS
