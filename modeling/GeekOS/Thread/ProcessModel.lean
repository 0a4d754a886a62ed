import GeekOS.Thread.Placement

/-!
# What the state field says

The state field and the queues are written by different functions. `Marked` is the agreement
the code keeps: a thread on the CPU is `THREAD_RUNNING`, one in the run queue `THREAD_READY`,
one in the new queue `THREAD_NEW`, and one in a wait queue is still `THREAD_RUNNING`, since
`thread_wait` does not store a state. No function stores `THREAD_WAITING` or `THREAD_KILLED`.
-/

namespace GeekOS

/-- The state field of the members of a queue. -/
def QueueId.mark : QueueId → ThreadState
  | .runqueue => .ready
  | .newqueue => .new
  | .wait _ => .running

/-- The state field agrees with the place of a thread, sleepers counting as running. -/
structure Marked (x : Option ThreadId) (s : Sched) : Prop where
  cpu : ∀ t th, x = some t → s.threads t = some th → th.state = .running
  queue : ∀ q t th, t ∈ s.queue q → s.threads t = some th → th.state = q.mark

namespace Marked

variable {x x' : Option ThreadId} {s s' : Sched} {t : ThreadId}

/-- Where one thread changed its place or its record, only this thread has to be looked at. -/
theorem of_changed (h : Marked x s) (hthreads : ∀ u ≠ t, s'.threads u = s.threads u)
    (hqueue : ∀ u ≠ t, ∀ q, u ∈ s'.queue q → u ∈ s.queue q)
    (hcpu : ∀ u ≠ t, x' = some u → x = some u)
    (ht : ∀ th, s'.threads t = some th →
      (x' = some t → th.state = .running) ∧ ∀ q, t ∈ s'.queue q → th.state = q.mark) :
    Marked x' s' where
  cpu u thu hu hthu := by
    by_cases hut : u = t
    · subst hut
      exact (ht thu hthu).1 hu
    · exact h.cpu u thu (hcpu u hut hu) (by rw [← hthreads u hut, hthu])
  queue q u thu hu hthu := by
    by_cases hut : u = t
    · subst hut
      exact (ht thu hthu).2 q hu
    · exact h.queue q u thu (hqueue u hut q hu) (by rw [← hthreads u hut, hthu])

/-- A store into a record that keeps its state. -/
theorem setThread {th th' : Thread} (h : Marked x s) (hth : s.threads t = some th)
    (hstate : th'.state = th.state) : Marked x (s.setThread t th') := by
  refine h.of_changed (t := t) (fun u hu => by simp [Function.update_of_ne hu])
    (fun _ _ _ hq => hq) (fun _ _ hx => hx) fun th'' hth'' => ?_
  obtain rfl : th' = th'' := by simpa using hth''
  exact ⟨fun hx => hstate.trans (h.cpu t th hx hth), fun q hq => hstate.trans (h.queue q t th hq hth)⟩

/-- A thread that is in no queue and does not have the CPU joins a queue with the mark of it. -/
theorem schedule {q : QueueId} (h : Marked x s) (hout : ∀ q, t ∉ s.queue q) {th' : Thread}
    (hx : x ≠ some t) (hstate : th'.state = q.mark) :
    Marked x (scheduleInto q t (s.setThread t th')) := by
  refine h.of_changed (t := t)
    (fun u hu => by simp [scheduleInto, Function.update_of_ne hu])
    (fun u hu q' hq' => (mem_scheduleInto.mp hq').resolve_right fun he => hu he.1)
    (fun _ _ hx => hx) fun th'' hth'' => ?_
  obtain rfl : th' = th'' := by simpa [scheduleInto] using hth''
  refine ⟨fun he => absurd he hx, fun q' hq' => ?_⟩
  rcases mem_scheduleInto.mp hq' with hq' | ⟨-, rfl⟩
  · exact absurd hq' (hout q')
  · exact hstate

/-- Taking the head of a queue out of it. -/
theorem take {q : QueueId} {rest : List ThreadId} (h : Marked x s) (hq : s.queue q = t :: rest) :
    Marked x (s.setQueue q rest) where
  cpu := h.cpu
  queue _ u thu hu hthu := h.queue _ u thu (mem_of_mem_setQueue hq hu) hthu

/-- The CPU is left. -/
theorem leave (h : Marked x s) : Marked none s where
  cpu := by simp
  queue := h.queue

/-- Every move keeps the agreement. -/
theorem move {l : Option Label} {c c' : Config} (hp : Placed c.1.toList c.2) (h : Marked c.1 c.2)
    (hm : Move l c c') : Marked c'.1 c'.2 := by
  cases hm with
  | touch hth hstate => exact h.setThread hth hstate
  | globals => exact ⟨h.cpu, h.queue⟩
  | @dispatch s t rest th hq hth =>
    -- the thread at the head of the run queue comes to the CPU
    have htake : Placed [t] (s.setQueue .runqueue rest) := hp.take hq
    refine (h.take hq).of_changed (t := t) (fun u hu => by simp [Function.update_of_ne hu])
      (fun _ _ _ hq => hq) (fun u hu hx => ?_) fun th' hth' => ?_
    · exact absurd (Option.some.inj hx).symm hu
    · obtain rfl : { th with state := .running } = th' := by simpa using hth'
      exact ⟨fun _ => rfl, fun q hq => absurd hq (htake.outside t List.mem_cons_self q)⟩
  | @ready s t th hth hrun =>
    exact h.leave.schedule (fun q => hp.outside t (by simp) q) (by simp) rfl
  | @block s t th q hth hrun =>
    refine h.of_changed (t := t) (fun _ _ => rfl) (fun u hu q' hq' => ?_) (by simp)
      fun th' hth' => ⟨by simp, fun q' hq' => ?_⟩
    · exact ((mem_enqueue (StableInsert.Splits.append _ _)).mp hq').resolve_right fun he => hu he.1
    · obtain rfl : th = th' := Option.some.inj (hth.symm.trans hth')
      rcases (mem_enqueue (StableInsert.Splits.append _ _)).mp hq' with hq' | ⟨-, rfl⟩
      · exact absurd hq' (hp.outside t (by simp) q')
      · exact hrun
  | @wake x s t rest th q hq hth =>
    -- a thread that has been taken out of one queue is in no other
    have htake := hp.take hq
    refine (h.take hq).schedule (htake.outside t List.mem_cons_self) ?_ rfl
    rintro rfl
    simpa using htake.outside_nodup
  | @merge x s t rest th hq hth =>
    have htake := hp.take hq
    refine (h.take hq).schedule (htake.outside t List.mem_cons_self) ?_ rfl
    rintro rfl
    simpa using htake.outside_nodup
  | @spawn x s th hstate =>
    -- a new thread is in no queue and not on the CPU
    have hne : th.state ≠ .exited := by simp [hstate]
    have hnew := hp.alloc hne
    have hx : x ≠ some s.nextThread := by
      rintro rfl
      simpa using hnew.outside_nodup
    exact Marked.schedule (s := { s with nextThread := s.nextThread + 1 }) ⟨h.cpu, h.queue⟩
      (fun q => hnew.outside _ List.mem_cons_self q) hx hstate
  | @spawnNew x s th hstate =>
    have hne : th.state ≠ .exited := by simp [hstate]
    have hnew := hp.alloc hne
    have hx : x ≠ some s.nextThread := by
      rintro rfl
      simpa using hnew.outside_nodup
    exact Marked.schedule (s := { s with nextThread := s.nextThread + 1 }) ⟨h.cpu, h.queue⟩
      (fun q => hnew.outside _ List.mem_cons_self q) hx hstate
  | detach hth => exact h.setThread hth rfl
  | @exit s t th th' hth hstate =>
    refine h.of_changed (t := t) (fun u hu => by simp [Function.update_of_ne hu])
      (fun _ _ _ hq => hq) (by simp) fun _ _ => ⟨by simp, fun q hq => ?_⟩
    exact absurd hq (hp.outside t (by simp) q)
  | prioritize hth hstate => exact h.setThread hth hstate
  | free o => exact ⟨h.cpu, h.queue⟩
  | select g => exact ⟨h.cpu, h.queue⟩
  | preemption b => exact ⟨h.cpu, h.queue⟩
  | reschedule b => exact ⟨h.cpu, h.queue⟩

end Marked

/-- The five-state model: the state field says where the thread is. A thread that is neither
current nor in a queue has left through `thread_exit`. -/
def FiveStates (s : Sched) : Prop :=
  ∀ t th, s.threads t = some th →
    (th.state = .running ↔ t = s.gCurrent) ∧
    (th.state = .ready ↔ t ∈ s.queue .runqueue) ∧
    (th.state = .new ↔ t ∈ s.queue .newqueue) ∧
    (th.state = .waiting ↔ ∃ q, t ∈ s.queue (.wait q)) ∧
    (th.state = .exited ↔ t ≠ s.gCurrent ∧ ∀ q, t ∉ s.queue q)

/-- Given the agreement the code keeps, the five-state model holds exactly while nobody sleeps. -/
theorem fiveStates_iff {s : Sched} (hp : Placed [s.gCurrent] s) (h : Marked (some s.gCurrent) s) :
    FiveStates s ↔ ∀ q, s.queue (.wait q) = [] := by
  constructor
  · intro hfive q
    refine List.eq_nil_iff_forall_not_mem.mpr fun t ht => ?_
    obtain ⟨th, hth, -⟩ := hp.live t (.inr ⟨_, ht⟩)
    have hwaiting := (hfive t th hth).2.2.2.1.mpr ⟨q, ht⟩
    simp [h.queue _ t th ht hth, QueueId.mark] at hwaiting
  · intro hempty t th hth
    have hnowait : ∀ q, t ∉ s.queue (.wait q) := by simp [hempty]
    have hcur : t = s.gCurrent → th.state = .running := fun he => h.cpu t th (by rw [he]) hth
    have hrun : t ∈ s.queue .runqueue → th.state = .ready := fun hq => h.queue _ t th hq hth
    have hnew : t ∈ s.queue .newqueue → th.state = .new := fun hq => h.queue _ t th hq hth
    -- the thread has exited, or it is in one of three places, which its state field names
    have hplace : th.state = .exited ∨ t = s.gCurrent ∨ t ∈ s.queue .runqueue ∨
        t ∈ s.queue .newqueue := by
      by_cases he : th.state = .exited
      · exact .inl he
      · rcases hp.somewhere t th hth he with ht | ⟨q, hq⟩
        · exact .inr (.inl (by simpa using ht))
        · cases q with
          | runqueue => exact .inr (.inr (.inl hq))
          | newqueue => exact .inr (.inr (.inr hq))
          | wait q => exact absurd hq (hnowait q)
    have hexited : th.state = .exited → t ≠ s.gCurrent ∧ ∀ q, t ∉ s.queue q := by
      intro he
      refine ⟨fun hc => hp.not_exited (.inl (by simp [hc])) hth he, fun q hq => ?_⟩
      exact hp.not_exited (.inr ⟨q, hq⟩) hth he
    rcases hplace with he | hc | hr | hn
    · have := hexited he
      simp_all
    · have hst := hcur hc
      have hout := hp.outside t (by simp [hc])
      simp_all
    · have hst := hrun hr
      have hne : t ≠ s.gCurrent := fun hc => hp.outside t (by simp [hc]) _ hr
      have hnn : t ∉ s.queue .newqueue := fun hn => by
        simpa using hp.unique t _ _ hr hn
      exact ⟨by simp [hst, hne], by simp [hst, hr], by simp [hst, hnn], by simp [hst, hnowait],
        iff_of_false (by simp [hst]) fun h => h.2 _ hr⟩
    · have hst := hnew hn
      have hne : t ≠ s.gCurrent := fun hc => hp.outside t (by simp [hc]) _ hn
      have hnr : t ∉ s.queue .runqueue := fun hr => by
        simpa using hp.unique t _ _ hr hn
      exact ⟨by simp [hst, hne], by simp [hst, hnr], by simp [hst, hn], by simp [hst, hnowait],
        iff_of_false (by simp [hst]) fun h => h.2 _ hn⟩

end GeekOS
