import GeekOS.Kernel.Faults
import GeekOS.Kernel.FiveStates

/-!
# One place for every thread

In every state the kernel reaches, a thread that has not exited is in exactly one place, and
there is always a thread to run: the idle thread only yields, so it never leaves the CPU and the
run queue.

* `Moves.stays_among`, `Moves.stays_runnable`: a thread that does not exit stays on the CPU, in
  the run queue or in the queues in which it sleeps;
* `thread_one_place_of_reachable`: the result.
-/

namespace GeekOS

open Result TransitionSystem

/-- The thread is the current one, or it is in exactly one queue, once. -/
def Sched.OnePlace (s : Sched) (t : ThreadId) : Prop :=
  (t = s.gCurrent ∧ ∀ q, t ∉ s.queue q) ∨
    (t ≠ s.gCurrent ∧ ∃ q, (s.queue q).count t = 1 ∧ ∀ q' ≠ q, t ∉ s.queue q')

theorem Placed.onePlace {s : Sched} {t : ThreadId} {th : Thread} (h : Placed [s.gCurrent] s)
    (hth : s.threads t = some th) (hstate : th.state ≠ .exited) : s.OnePlace t := by
  rcases h.somewhere t th hth hstate with ht | ⟨q, hq⟩
  · obtain rfl := List.mem_singleton.mp ht
    exact .inl ⟨rfl, h.outside _ ht⟩
  · have hne : t ≠ s.gCurrent := by
      rintro rfl
      exact h.outside _ (List.mem_singleton_self _) q hq
    exact .inr ⟨hne, q, List.count_eq_one_of_mem (h.nodup q) hq,
      fun q' hne' hq' => hne' (h.unique t q' q hq' hq)⟩

/-- On the CPU or in the run queue. -/
def Runnable (t : ThreadId) (c : Config) : Prop := c.1 = some t ∨ t ∈ c.2.queue .runqueue

/-- A thread that does not exit stays on the CPU, in the run queue or asleep in one of the queues
in which it goes to sleep. -/
theorem Moves.stays_among {A : Label → Prop} {c c' : Config} {t : ThreadId} {Q : WaitQueue → Prop}
    (h : Moves A c c') (hblock : ∀ q, A (.block t q) → Q q) (hexit : ∀ code, ¬A (.exit t code))
    (ht : Runnable t c ∨ ∃ q, Q q ∧ t ∈ c.2.queue (.wait q)) :
    Runnable t c' ∨ ∃ q, Q q ∧ t ∈ c'.2.queue (.wait q) := by
  refine h.invariant (I := fun c => Runnable t c ∨ ∃ q, Q q ∧ t ∈ c.2.queue (.wait q)) ?_ ht
  intro l c₁ c₂ hl ht hm
  -- a move that keeps the CPU and makes a thread runnable
  have hput : ∀ {x : Option ThreadId} {s : Sched} (u : ThreadId),
      Runnable t (x, s) ∨ (∃ q, Q q ∧ t ∈ s.queue (.wait q)) →
      Runnable t (x, scheduleInto .runqueue u s) ∨
        ∃ q, Q q ∧ t ∈ (scheduleInto .runqueue u s).queue (.wait q) := by
    rintro x s u ((hx | hmem) | ⟨q, hq, hmem⟩)
    · exact .inl (.inl hx)
    · exact .inl (.inr (mem_scheduleInto.mpr (.inl hmem)))
    · exact .inr ⟨q, hq, mem_scheduleInto.mpr (.inl hmem)⟩
  cases hm with
  | @dispatch s u rest th hq hth =>
    rcases ht with (hx | hmem) | ⟨q, hQ, hmem⟩
    · simp at hx
    · change t ∈ s.queue .runqueue at hmem
      rw [hq] at hmem
      rcases List.mem_cons.mp hmem with rfl | hmem
      · exact .inl (.inl rfl)
      · exact .inl (.inr (by simpa using hmem))
    · exact .inr ⟨q, hQ, by simpa using hmem⟩
  | @ready s u th hth hrun =>
    rcases ht with (hu | hmem) | ⟨q, hQ, hmem⟩
    · obtain rfl := Option.some.inj hu
      exact .inl (.inr (mem_scheduleInto.mpr (.inr ⟨rfl, rfl⟩)))
    · exact .inl (.inr (mem_scheduleInto.mpr (.inl hmem)))
    · exact .inr ⟨q, hQ, mem_scheduleInto.mpr (.inl hmem)⟩
  | @block s u th q hth hrun =>
    rcases ht with (hu | hmem) | ⟨q', hQ, hmem⟩
    · obtain rfl := Option.some.inj hu
      exact .inr ⟨q, hblock q (hl _ rfl), by simp [threadQueueAppend]⟩
    · exact .inl (.inr (by simpa [threadQueueAppend] using hmem))
    · exact .inr ⟨q', hQ, (mem_enqueue (StableInsert.Splits.append _ _)).mpr (.inl hmem)⟩
  | @wake x s u rest th q hq hth =>
    by_cases htu : t = u
    · exact .inl (.inr (mem_scheduleInto.mpr (.inr ⟨htu, rfl⟩)))
    · refine hput u (ht.imp (.imp_right fun hmem => by simpa using hmem) fun hsleep => ?_)
      obtain ⟨q', hQ, hmem⟩ := hsleep
      refine ⟨q', hQ, ?_⟩
      by_cases hqq : q' = q
      · subst hqq
        rw [hq] at hmem
        simpa using (List.mem_cons.mp hmem).resolve_left htu
      · simpa [hqq] using hmem
  | @merge x s u rest th hq hth =>
    refine hput u (ht.imp (.imp_right fun hmem => by simpa using hmem) fun hsleep => ?_)
    obtain ⟨q', hQ, hmem⟩ := hsleep
    exact ⟨q', hQ, by simpa using hmem⟩
  | spawn => exact hput _ ht
  | spawnNew =>
    refine ht.imp (.imp_right fun hmem => mem_scheduleInto.mpr (.inl hmem)) ?_
    rintro ⟨q', hQ, hmem⟩
    exact ⟨q', hQ, mem_scheduleInto.mpr (.inl hmem)⟩
  | exit hth =>
    rcases ht with (hu | hmem) | hsleep
    · obtain rfl := Option.some.inj hu
      exact absurd (hl _ rfl) (hexit _)
    · exact .inl (.inr hmem)
    · exact .inr hsleep
  | touch | globals | detach | prioritize | free | select | preemption | reschedule => exact ht

/-- A thread that neither goes to sleep nor exits stays on the CPU or in the run queue. -/
theorem Moves.stays_runnable {A : Label → Prop} {c c' : Config} {t : ThreadId}
    (h : Moves A c c') (hblock : ∀ q, ¬A (.block t q)) (hexit : ∀ code, ¬A (.exit t code))
    (ht : Runnable t c) : Runnable t c' := by
  have hstays := h.stays_among (Q := fun _ => False) (fun q hq => hblock q hq) hexit (.inl ht)
  exact hstays.resolve_right fun ⟨_, hfalse, _⟩ => hfalse

/-- The idle thread only yields. -/
structure IdleRuns (m : Machine) : Prop where
  acts : m.acts idleThread = [.thread .idle]
  runnable : Runnable idleThread (some m.current, m.kernel.sched)

theorem idleRuns_boot : IdleRuns boot := ⟨rfl, .inr (by decide)⟩

theorem IdleRuns.step {m m' : Machine} {e : Event} (h : IdleRuns m) (hs : m.Step e m') :
    IdleRuns m' := by
  refine ⟨?_, (Machine.exec_moves hs.2).stays_runnable ?_ ?_ h.runnable⟩
  · by_cases hcur : idleThread = m.current
    · have hacts := h.acts
      rw [hcur] at hacts ⊢
      cases e with
      | call a =>
        have hen : m.acts m.current = [] := hs.1.1
        simp [hacts] at hen
      | resume memory =>
        obtain ⟨acts, k', hrun, rfl⟩ := (Machine.exec_resume hacts).mp hs.2
        cases ThreadAct.run_step hrun
        simp
      | timer =>
        obtain ⟨_, -, h⟩ := bind_eq_ok.mp hs.2
        obtain ⟨_, -, h⟩ := bind_eq_ok.mp h
        obtain rfl := pure_eq_ok.mp h
        exact hacts
      | keyboard keycode =>
        obtain ⟨_, -, h⟩ := bind_eq_ok.mp hs.2
        obtain ⟨_, -, h⟩ := bind_eq_ok.mp h
        obtain rfl := pure_eq_ok.mp h
        exact hacts
    · rw [Machine.exec_acts_of_ne hs.2 hcur, h.acts]
  · intro q hq
    -- it never sleeps, since its one act does not wait
    obtain ⟨hsleeps, hcur⟩ := Machine.sleeps_of_allows_block hq
    cases e with
    | resume memory => simp [Machine.sleeps, ← hcur, h.acts, Act.sleepsOn] at hsleeps
    | call | timer | keyboard => simp [Machine.sleeps] at hsleeps
  · intro code hexit
    cases e with
    | resume memory =>
      obtain ⟨a, rest, hacts, hcur, rfl⟩ := hexit
      -- nor does it exit
      have hidle : m.acts m.current = [.thread .idle] := by
        rw [← show idleThread = m.current from hcur, h.acts]
      simp [hidle] at hacts
    | call | timer | keyboard => simp [Machine.Allows] at hexit

theorem reachable_idleRuns {m : Machine} (h : Reachable Machine.Step boot m) : IdleRuns m :=
  h.invariant idleRuns_boot fun _ _ _ hI hs => hI.step hs

/-- Where the idle thread is not current, it is there to be run. -/
theorem IdleRuns.runqueue_ne_nil {m : Machine} (h : IdleRuns m) (hcur : m.current ≠ idleThread) :
    m.kernel.sched.queue .runqueue ≠ [] := by
  rcases h.runnable with hc | hmem
  · exact absurd (Option.some.inj hc) hcur
  · exact List.ne_nil_of_mem hmem

/-- The assertions of `thread_next_runnable` hold whenever it is called. -/
theorem IdleRuns.exec_ne_error {m : Machine} {e : Event} (h : IdleRuns m) :
    m.exec e ≠ .error (.assertion (.listHead .runqueue)) := by
  intro herr
  rcases Machine.exec_error herr with ⟨memory, a, rest, rfl, hacts, ha⟩ | hf | ⟨-, o, ho⟩
  · by_cases hcur : m.current = idleThread
    · -- the idle thread joins the run queue before it looks for the next one
      rw [hcur, h.acts] at hacts
      obtain ⟨rfl, -⟩ := List.cons.inj hacts
      rcases threadYield_error (atomically_error ha) with hf | ⟨-, o, ho⟩
      · simp at hf
      · simp at ho
    · cases Act.run_error ha with
      | noRunnable hempty => exact h.runqueue_ne_nil hcur hempty
      | check hc => exact hc _ rfl
      | dangling hf | freed hf | notFresh hf | accessed hf =>
        obtain ⟨o, ho⟩ := hf
        simp at ho
  · simp at hf
  · simp at ho

/-- In every reachable state, a thread that has not exited is current or in exactly one queue,
once; an exited thread is in no queue; and no event fails for want of a thread to run. -/
theorem thread_one_place_of_reachable {m : Machine} (h : Reachable Machine.Step boot m) :
    (∀ t th, m.kernel.sched.threads t = some th → th.state ≠ .exited →
      m.kernel.sched.OnePlace t) ∧
    (∀ t th, m.kernel.sched.threads t = some th → th.state = .exited →
      ∀ q, t ∉ m.kernel.sched.queue q) ∧
    ∀ e, m.exec e ≠ .error (.assertion (.listHead .runqueue)) := by
  have hp := reachable_placed h
  refine ⟨fun t th hth hstate => hp.onePlace hth hstate, fun t th hth hstate q hq => ?_,
    fun e => (reachable_idleRuns h).exec_ne_error⟩
  exact hp.not_exited (.inr ⟨q, hq⟩) hth hstate

/-- The law above where the workqueue thread sleeps and the idle thread runs. -/
theorem thread_one_place_firstSleep :
    (Machine.after firstSleep).kernel.sched.OnePlace workqueueThread ∧
      (Machine.after firstSleep).exec (.resume .available) ≠
        .error (.assertion (.listHead .runqueue)) := by
  have h := thread_one_place_of_reachable (m := Machine.after firstSleep)
    (Machine.reachable_after (by decide))
  obtain ⟨th, hth, hstate⟩ : ∃ th,
      (Machine.after firstSleep).kernel.sched.threads workqueueThread = some th ∧
        th.state ≠ .exited := ⟨_, rfl, by decide⟩
  exact ⟨h.1 _ th hth hstate, h.2.2 _⟩

end GeekOS
