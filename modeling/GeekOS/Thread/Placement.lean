import GeekOS.Thread.Moves

/-!
# Where threads are

`Placed F s`: every thread that has not exited is in exactly one place, being one of the threads
`F` outside the queues or a member of one queue, once. Between two moves `F` is the thread that
has the CPU, if any. All queues share the two link fields of a thread, so a queue is what its
list says only as long as this holds.

A move is put together from four elementary changes: a thread is taken from the head of a queue,
put into a queue, made, or ended. `Placed.move` is the result for a whole move.
-/

namespace GeekOS

open StableInsert

/-- Membership after an insertion. -/
theorem mem_enqueue {s : Sched} {q q' : QueueId} {r : List ThreadId} {t u : ThreadId}
    (hr : Splits (s.queue q) t r) :
    u ∈ (s.enqueue q r t).queue q' ↔ u ∈ s.queue q' ∨ u = t ∧ q' = q := by
  by_cases hq : q' = q
  · subst hq
    rw [Sched.enqueue_queue, Function.update_self, hr.mem_iff]
    tauto
  · simp [hq]

theorem mem_scheduleInto {s : Sched} {q q' : QueueId} {t u : ThreadId} :
    u ∈ (scheduleInto q t s).queue q' ↔ u ∈ s.queue q' ∨ u = t ∧ q' = q :=
  mem_enqueue (splits_scheduler _ _ _)

/-- A member of a queue whose head was taken out was a member before. -/
theorem mem_of_mem_setQueue {s : Sched} {q q' : QueueId} {t u : ThreadId} {rest : List ThreadId}
    (hq : s.queue q = t :: rest) (hu : u ∈ (s.setQueue q rest).queue q') : u ∈ s.queue q' := by
  by_cases hqq : q' = q
  · subst hqq
    rw [hq]
    exact List.mem_cons_of_mem _ (by simpa using hu)
  · simpa [Function.update_of_ne hqq] using hu

/-- Every thread that has not exited is in exactly one place: among `F`, or in one queue. -/
structure Placed (F : List ThreadId) (s : Sched) : Prop where
  fresh : ∀ t, s.nextThread ≤ t → s.threads t = none
  live : ∀ t, (t ∈ F ∨ ∃ q, t ∈ s.queue q) → ∃ th, s.threads t = some th ∧ th.state ≠ .exited
  nodup : ∀ q, (s.queue q).Nodup
  outside_nodup : F.Nodup
  outside : ∀ t ∈ F, ∀ q, t ∉ s.queue q
  unique : ∀ t q q', t ∈ s.queue q → t ∈ s.queue q' → q = q'
  somewhere : ∀ t th, s.threads t = some th → th.state ≠ .exited → t ∈ F ∨ ∃ q, t ∈ s.queue q

namespace Placed

variable {F : List ThreadId} {s s' : Sched} {t : ThreadId} {th th' : Thread}

/-- Only the records and the queues matter. -/
theorem congr (h : Placed F s) (hthreads : s'.threads = s.threads)
    (hnext : s'.nextThread = s.nextThread) (hqueue : s'.queue = s.queue) : Placed F s' := by
  obtain ⟨h₁, h₂, h₃, h₄, h₅, h₆, h₇⟩ := h
  constructor <;> simpa only [hthreads, hnext, hqueue]

theorem lt_nextThread (h : Placed F s) (hth : s.threads t = some th) : t < s.nextThread := by
  by_contra hle
  simp [h.fresh t (not_lt.mp hle)] at hth

/-- A store into a record that does not end the thread. -/
theorem setThread (h : Placed F s) (hth : s.threads t = some th)
    (hstate : th'.state = .exited ↔ th.state = .exited) : Placed F (s.setThread t th') where
  fresh u hu := by
    have hne : u ≠ t := by
      rintro rfl
      simp [h.fresh u hu] at hth
    simpa [Function.update_of_ne hne] using h.fresh u hu
  live u hu := by
    obtain ⟨thu, hthu, hliveu⟩ := h.live u hu
    by_cases hut : u = t
    · subst hut
      obtain rfl := Option.some.inj (hth.symm.trans hthu)
      exact ⟨th', by simp, fun he => hliveu (hstate.mp he)⟩
    · exact ⟨thu, by simpa [Function.update_of_ne hut] using hthu, hliveu⟩
  nodup := h.nodup
  outside_nodup := h.outside_nodup
  outside := h.outside
  unique := h.unique
  somewhere u thu hthu hliveu := by
    by_cases hut : u = t
    · subst hut
      obtain rfl : th' = thu := by simpa using hthu
      exact h.somewhere u th hth fun he => hliveu (hstate.mpr he)
    · exact h.somewhere u thu (by simpa [Function.update_of_ne hut] using hthu) hliveu

/-- The head of a queue is taken out. -/
theorem take (h : Placed F s) {q : QueueId} {rest : List ThreadId} (hq : s.queue q = t :: rest) :
    Placed (t :: F) (s.setQueue q rest) := by
  have hmem : t ∈ s.queue q := hq ▸ List.mem_cons_self
  have hnodup := h.nodup q
  rw [hq, List.nodup_cons] at hnodup
  have hsub : ∀ u q', u ∈ (s.setQueue q rest).queue q' → u ∈ s.queue q' :=
    fun u q' => mem_of_mem_setQueue hq
  refine ⟨h.fresh, fun u hu => ?_, fun q' => ?_, ?_, fun u hu q' hu' => ?_,
    fun u q₁ q₂ h₁ h₂ => h.unique u q₁ q₂ (hsub u q₁ h₁) (hsub u q₂ h₂), fun u thu hthu hl => ?_⟩
  · rcases hu with hu | ⟨q', hu⟩
    · rcases List.mem_cons.mp hu with rfl | hu
      · exact h.live _ (.inr ⟨q, hmem⟩)
      · exact h.live u (.inl hu)
    · exact h.live u (.inr ⟨q', hsub u q' hu⟩)
  · by_cases hqq : q' = q
    · subst hqq
      simpa using hnodup.2
    · simpa [Function.update_of_ne hqq] using h.nodup q'
  · exact List.nodup_cons.mpr ⟨fun hF => h.outside t hF q hmem, h.outside_nodup⟩
  · rcases List.mem_cons.mp hu with rfl | hu
    · obtain rfl := h.unique _ q' q (hsub _ q' hu') hmem
      exact hnodup.1 (by simpa using hu')
    · exact h.outside u hu q' (hsub u q' hu')
  · rcases h.somewhere u thu hthu hl with hF | ⟨q', hu⟩
    · exact .inl (List.mem_cons_of_mem _ hF)
    · by_cases hqq : q' = q
      · subst hqq
        rw [hq] at hu
        rcases List.mem_cons.mp hu with rfl | hu
        · exact .inl List.mem_cons_self
        · exact .inr ⟨q', by simpa using hu⟩
      · exact .inr ⟨q', by simpa [Function.update_of_ne hqq] using hu⟩

/-- A thread from outside is put into a queue. -/
theorem put (h : Placed (t :: F) s) {q : QueueId} {r : List ThreadId}
    (hr : Splits (s.queue q) t r) : Placed F (s.enqueue q r t) := by
  obtain ⟨htF, hF⟩ := List.nodup_cons.mp h.outside_nodup
  have hout := h.outside t List.mem_cons_self
  have hmem : ∀ u q', u ∈ (s.enqueue q r t).queue q' ↔ u ∈ s.queue q' ∨ u = t ∧ q' = q :=
    fun u q' => mem_enqueue hr
  refine ⟨h.fresh, fun u hu => ?_, fun q' => ?_, hF, fun u hu q' hu' => ?_,
    fun u q₁ q₂ h₁ h₂ => ?_, fun u thu hthu hl => ?_⟩
  · rcases hu with hu | ⟨q', hu⟩
    · exact h.live u (.inl (List.mem_cons_of_mem _ hu))
    · rcases (hmem u q').mp hu with hu | ⟨rfl, rfl⟩
      · exact h.live u (.inr ⟨q', hu⟩)
      · exact h.live _ (.inl List.mem_cons_self)
  · by_cases hqq : q' = q
    · subst hqq
      rw [Sched.enqueue_queue, Function.update_self, hr.nodup_iff]
      exact ⟨hout q', h.nodup q'⟩
    · simpa [Function.update_of_ne hqq] using h.nodup q'
  · rcases (hmem u q').mp hu' with hu' | ⟨rfl, -⟩
    · exact h.outside u (List.mem_cons_of_mem _ hu) q' hu'
    · exact htF hu
  · rcases (hmem u q₁).mp h₁ with k₁ | ⟨rfl, rfl⟩
    · rcases (hmem u q₂).mp h₂ with k₂ | ⟨rfl, rfl⟩
      · exact h.unique u q₁ q₂ k₁ k₂
      · exact (hout q₁ k₁).elim
    · rcases (hmem _ q₂).mp h₂ with k₂ | ⟨-, rfl⟩
      · exact (hout q₂ k₂).elim
      · rfl
  · rcases h.somewhere u thu hthu hl with hu | ⟨q', hu⟩
    · rcases List.mem_cons.mp hu with rfl | hu
      · exact .inr ⟨q, (hmem u q).mpr (.inr ⟨rfl, rfl⟩)⟩
      · exact .inl hu
    · exact .inr ⟨q', (hmem u q').mpr (.inl hu)⟩

/-- The scheduler puts a thread from outside into a queue. -/
theorem schedule (h : Placed (t :: F) s) (q : QueueId) : Placed F (scheduleInto q t s) :=
  h.put (splits_scheduler _ _ _)

/-- A new record is allocated. -/
theorem alloc (h : Placed F s) (hstate : th.state ≠ .exited) :
    Placed (s.nextThread :: F) (allocThread th s).2 := by
  have hnone := h.fresh s.nextThread le_rfl
  have hnew : ∀ q, s.nextThread ∉ s.queue q := fun q hq => by
    obtain ⟨_, hth, -⟩ := h.live _ (.inr ⟨q, hq⟩)
    simp [hnone] at hth
  refine ⟨fun u hu => ?_, fun u hu => ?_, h.nodup, List.nodup_cons.mpr ⟨fun hF => ?_,
    h.outside_nodup⟩, fun u hu q hq => ?_, h.unique, fun u thu hthu hl => ?_⟩
  · have hlt : s.nextThread < u := hu
    simpa [allocThread, Function.update_of_ne hlt.ne'] using h.fresh u hlt.le
  · by_cases hne : u = s.nextThread
    · subst hne
      exact ⟨th, by simp [allocThread], hstate⟩
    · have hu' : u ∈ F ∨ ∃ q, u ∈ s.queue q := by
        rcases hu with hu | hu
        · exact .inl ((List.mem_cons.mp hu).resolve_left hne)
        · exact .inr hu
      obtain ⟨thu, hthu, hl⟩ := h.live u hu'
      exact ⟨thu, by simpa [allocThread, Function.update_of_ne hne] using hthu, hl⟩
  · obtain ⟨_, hth, -⟩ := h.live _ (.inl hF)
    simp [hnone] at hth
  · rcases List.mem_cons.mp hu with rfl | hu
    · exact hnew q hq
    · exact h.outside u hu q hq
  · by_cases hne : u = s.nextThread
    · exact .inl (hne ▸ List.mem_cons_self)
    · have hthu' : s.threads u = some thu := by
        simpa [allocThread, Function.update_of_ne hne] using hthu
      rcases h.somewhere u thu hthu' hl with hu | hu
      · exact .inl (List.mem_cons_of_mem _ hu)
      · exact .inr hu

/-- A thread outside the queues ends. -/
theorem leave (h : Placed (t :: F) s) (hstate : th'.state = .exited) :
    Placed F (s.setThread t th') := by
  obtain ⟨htF, hF⟩ := List.nodup_cons.mp h.outside_nodup
  have hout := h.outside t List.mem_cons_self
  refine ⟨fun u hu => ?_, fun u hu => ?_, h.nodup, hF,
    fun u hu => h.outside u (List.mem_cons_of_mem _ hu), h.unique, fun u thu hthu hl => ?_⟩
  · obtain ⟨th, hth, -⟩ := h.live t (.inl List.mem_cons_self)
    have hne : t < u := (h.lt_nextThread hth).trans_le hu
    simpa [Function.update_of_ne hne.ne'] using h.fresh u hu
  · have hne : u ≠ t := by
      rintro rfl
      rcases hu with hu | ⟨q, hu⟩
      · exact htF hu
      · exact hout q hu
    obtain ⟨thu, hthu, hl⟩ := h.live u (hu.imp_left (List.mem_cons_of_mem _))
    exact ⟨thu, by simpa [Function.update_of_ne hne] using hthu, hl⟩
  · by_cases hne : u = t
    · subst hne
      obtain rfl : th' = thu := by simpa using hthu
      exact absurd hstate hl
    · have hthu' : s.threads u = some thu := by simpa [Function.update_of_ne hne] using hthu
      rcases h.somewhere u thu hthu' hl with hu | hu
      · exact .inl ((List.mem_cons.mp hu).resolve_left hne)
      · exact .inr hu

/-- The record of a thread outside the queues or in one exists and is not that of an exited
thread. -/
theorem not_exited (h : Placed F s) (ht : t ∈ F ∨ ∃ q, t ∈ s.queue q)
    (hth : s.threads t = some th) : th.state ≠ .exited := by
  obtain ⟨th', hth', hl⟩ := h.live t ht
  obtain rfl := Option.some.inj (hth.symm.trans hth')
  exact hl

/-- Every move keeps every thread in exactly one place. -/
theorem move {l : Option Label} {c c' : Config} (h : Placed c.1.toList c.2) (hm : Move l c c') :
    Placed c'.1.toList c'.2 := by
  cases hm with
  | touch hth hstate => exact h.setThread hth (by rw [hstate])
  | globals => exact h.congr rfl rfl rfl
  | dispatch hq hth =>
    refine .congr (.setThread (h.take hq) hth ?_) rfl rfl rfl
    have := h.not_exited (.inr ⟨_, hq ▸ List.mem_cons_self⟩) hth
    simp [this]
  | @ready s t th hth hrun =>
    refine Placed.schedule (F := []) (.setThread h hth ?_) _
    simp [hrun]
  | block q hth hrun => exact Placed.put (F := []) h (Splits.append _ _)
  | wake hq hth =>
    refine (Placed.setThread (h.take hq) hth ?_).schedule _
    have := h.not_exited (.inr ⟨_, hq ▸ List.mem_cons_self⟩) hth
    simp [this]
  | merge hq hth =>
    refine (Placed.setThread (h.take hq) hth ?_).schedule _
    have := h.not_exited (.inr ⟨_, hq ▸ List.mem_cons_self⟩) hth
    simp [this]
  | spawn hstate => exact (h.alloc (by simp [hstate])).schedule _
  | spawnNew hstate => exact (h.alloc (by simp [hstate])).schedule _
  | detach hth => exact h.setThread hth Iff.rfl
  | exit hth hstate => exact Placed.leave (F := []) h hstate
  | prioritize hth hstate => exact h.setThread hth (by rw [hstate])
  | free o => exact h.congr rfl rfl rfl
  | select g => exact h.congr rfl rfl rfl
  | preemption b => exact h.congr rfl rfl rfl
  | reschedule b => exact h.congr rfl rfl rfl

theorem moves {A : Label → Prop} {c c' : Config} (h : Placed c.1.toList c.2) (hm : Moves A c c') :
    Placed c'.1.toList c'.2 :=
  hm.invariant (I := fun c => Placed c.1.toList c.2) (fun _ _ _ _ hc hl => hc.move hl) h

end Placed

end GeekOS
