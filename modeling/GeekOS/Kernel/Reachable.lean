import GeekOS.Library.Execution
import GeekOS.Thread.Stamps
import GeekOS.Kernel.Frames

/-!
# Reachable states

The invariants of the process model, carried from `boot` to every state the kernel reaches, and
the computation of runs from lists of events.

* `reachable_placed`, `reachable_marked`: where the threads are, and what their state field says;
* `reachable_stamped`, `reachable_fifo`: when they joined their queues;
* `Machine.runs`, `run_of_runs`: a list of events, carried out one after the other, is a run.
-/

namespace GeekOS

open Result TransitionSystem

/-! ## Invariants of moves, from state to state -/

/-- What every allowed move of a step keeps is an invariant of steps. -/
theorem Machine.Step.invariant {I : Config → Prop} {m m' : Machine} {e : Event}
    (h : m.Step e m')
    (hmove : ∀ l c c', (∀ a, l = some a → m.Allows e a) → I c → Move l c c' → I c')
    (hI : I (some m.current, m.kernel.sched)) : I (some m'.current, m'.kernel.sched) :=
  (exec_moves h.2).invariant hmove hI

/-! ## The start -/

theorem threadCreateAtomic_moves {mode : ThreadMode} {s s' : Sched} {x : Option ThreadId}
    (h : threadCreateAtomic mode s = .ok s') :
    Moves (fun _ => True) (x, s) (x, s') := by
  simp only [threadCreateAtomic, bind_eq_ok, Prod.exists] at h
  obtain ⟨t, s₁, h₁, s₂, h₂, h₃⟩ := h
  have hrun := (threadCreate_moves (A := fun _ => True) (x := x) trivial h₁).1
  have hpid := (threadCreatePid_moves (A := fun _ => True) (x := x) h₂).1
  exact ((hrun.trans genPid_moves).trans hpid).trans (threadCreatePriority_moves trivial h₃).1

theorem initSched_eq : initSched = .ok bootSched := rfl

theorem bootSched_moves :
    Moves (fun _ => True) (some mainThread, mainSched) (some mainThread, bootSched) := by
  have h := initSched_eq
  simp only [initSched, bind_eq_ok, pure_eq_ok] at h
  obtain ⟨s₁, h₁, s₂, h₂, h₃⟩ := h
  rw [← h₃]
  exact ((threadCreateAtomic_moves h₁).trans (threadCreateAtomic_moves h₂)).trans
    (Moves.labelled trivial (.preemption true))

theorem mainSched_placed : Placed [mainThread] mainSched where
  fresh t ht := by
    have hne : t ≠ 0 := fun h => by simp [h, mainSched] at ht
    simp [mainSched, hne]
  live t ht := by
    obtain rfl : t = 0 := by simpa [mainSched, mainThread] using ht
    exact ⟨_, rfl, by simp⟩
  nodup q := List.nodup_nil
  outside_nodup := List.nodup_singleton _
  outside t _ q := List.not_mem_nil
  unique t q q' h := by simp [mainSched] at h
  somewhere t th hth _ := by
    by_cases ht : t = 0
    · exact .inl (by simp [ht, mainThread])
    · simp [mainSched, ht] at hth

theorem mainSched_marked : Marked (some mainThread) mainSched where
  cpu t th ht hth := by
    obtain rfl : t = 0 := by simpa [mainThread] using ht.symm
    obtain rfl := by simpa [mainSched] using hth
    rfl
  queue q t th h := by simp [mainSched] at h

/-- Moves keep threads in their places and the state fields in agreement. -/
theorem Moves.placed_marked {A : Label → Prop} {c c' : Config} (h : Moves A c c')
    (hp : Placed c.1.toList c.2) (hm : Marked c.1 c.2) :
    Placed c'.1.toList c'.2 ∧ Marked c'.1 c'.2 :=
  h.invariant (I := fun c => Placed c.1.toList c.2 ∧ Marked c.1 c.2)
    (fun _ _ _ _ hI hl => ⟨hI.1.move hl, hI.2.move hI.1 hl⟩) ⟨hp, hm⟩

/-- Moves keep the wait queues first in, first out. -/
theorem Moves.stamped_fifo {A : Label → Prop} {c c' : Config} (h : Moves A c c')
    (hp : Placed c.1.toList c.2) (hs : c.2.Stamped) (hf : c.2.Fifo) :
    c'.2.Stamped ∧ c'.2.Fifo := by
  have hI := h.invariant (I := fun c => Placed c.1.toList c.2 ∧ c.2.Stamped ∧ c.2.Fifo)
    (fun _ _ _ _ hI hm => ⟨hI.1.move hm, stamped_move hI.2.1 hm, fifo_move hI.2.2 hI.2.1 hI.1 hm⟩)
    ⟨hp, hs, hf⟩
  exact hI.2

/-- The idle thread and the workqueue thread are in front of their loops. -/
theorem mem_boot_acts {u : ThreadId} {a : Act} (ha : a ∈ boot.acts u) :
    a = .thread .idle ∨ a = .work (.loop false) := by
  unfold boot at ha
  dsimp only at ha
  split at ha
  · exact .inl (List.mem_singleton.mp ha)
  · split at ha
    · exact .inr (List.mem_singleton.mp ha)
    · exact absurd ha List.not_mem_nil

/-! ## Every reachable state -/

section Reachable

variable {m : Machine} (h : Reachable Machine.Step boot m)
include h

theorem reachable_placed_marked :
    Placed [m.current] m.kernel.sched ∧ Marked (some m.current) m.kernel.sched := by
  -- from the boot by the moves of the initialisation, and from there by those of the steps
  refine h.invariant (I := fun m => Placed [m.current] m.kernel.sched ∧
    Marked (some m.current) m.kernel.sched) ?_ fun m e m' hI hs => ?_
  · exact bootSched_moves.placed_marked mainSched_placed mainSched_marked
  · exact (Machine.exec_moves hs.2).placed_marked hI.1 hI.2

/-- Every thread that has not exited is in exactly one place. -/
theorem reachable_placed : Placed [m.current] m.kernel.sched := (reachable_placed_marked h).1

/-- The state field agrees with the place, sleepers counting as running. -/
theorem reachable_marked : Marked (some m.current) m.kernel.sched := (reachable_placed_marked h).2

theorem reachable_stamped_fifo : m.kernel.sched.Stamped ∧ m.kernel.sched.Fifo := by
  have hI : Reachable Machine.Step boot m ∧ m.kernel.sched.Stamped ∧ m.kernel.sched.Fifo := by
    refine h.invariant (I := fun m => Reachable Machine.Step boot m ∧ m.kernel.sched.Stamped ∧
      m.kernel.sched.Fifo) ⟨.refl _, ?_⟩ fun m e m' hI hs => ⟨hI.1.tail hs, ?_⟩
    · exact bootSched_moves.stamped_fifo mainSched_placed (fun q t ht => by simp [mainSched] at ht)
        fun q => List.Pairwise.nil
    · exact (Machine.exec_moves hs.2).stamped_fifo (reachable_placed hI.1) hI.2.1 hI.2.2
  exact hI.2

/-- The members of the queues have joined them in the past. -/
theorem reachable_stamped : m.kernel.sched.Stamped := (reachable_stamped_fifo h).1

/-- The head of a wait queue has waited longest. -/
theorem reachable_fifo : m.kernel.sched.Fifo := (reachable_stamped_fifo h).2

end Reachable

/-! ## Runs from lists of events -/

namespace Machine

/-- The current thread goes through its next `n` acts, with memory available. -/
def resume (n : ℕ) : List Event := List.replicate n (.resume .available)

/-- It calls a function and goes through `n` acts. -/
def call (a : Act) (n : ℕ) : List Event := .call a :: resume n

/-- Carry out the events one after the other, if all can come and none of them fails: the trace
and the last state. -/
def runs (m : Machine) : List Event → Option (List (Machine × Event) × Machine)
  | [] => some ([], m)
  | e :: events =>
      if m.Enabled e then
        match m.exec e with
        | .ok m' => (m'.runs events).map fun r => ((m, e) :: r.1, r.2)
        | .error _ => none
      else none

/-- Where the events lead from the start. -/
def after (events : List Event) : Machine := ((boot.runs events).map Prod.snd).getD boot

/-- The machine is a system whose steps are computed. -/
theorem runs_eq (m : Machine) (events : List Event) :
    m.runs events = TransitionSystem.runs Enabled exec m events := by
  induction events generalizing m with
  | nil => rfl
  | cons e events ih =>
    simp only [runs, TransitionSystem.runs, ih]
    cases m.exec e <;> rfl

theorem run_of_runs {m m' : Machine} {events : List Event} {tr : List (Machine × Event)}
    (h : m.runs events = some (tr, m')) : Run Step m tr m' := by
  rw [runs_eq] at h
  exact TransitionSystem.run_of_runs h

theorem map_snd_of_runs {m m' : Machine} {events : List Event} {tr : List (Machine × Event)}
    (h : m.runs events = some (tr, m')) : tr.map Prod.snd = events := by
  rw [runs_eq] at h
  exact TransitionSystem.map_snd_of_runs h

/-- Events that all can come, one after the other, are a run to where they lead. -/
theorem run_after (events : List Event) (h : (boot.runs events).isSome) :
    ∃ tr, Run Step boot tr (after events) ∧ tr.map Prod.snd = events := by
  obtain ⟨⟨tr, m⟩, hr⟩ := Option.isSome_iff_exists.mp h
  obtain rfl : after events = m := by simp [after, hr]
  exact ⟨tr, run_of_runs hr, map_snd_of_runs hr⟩

theorem reachable_after {events : List Event} (h : (boot.runs events).isSome) :
    Reachable Step boot (after events) := by
  obtain ⟨tr, hr, -⟩ := run_after events h
  exact hr.reachable

end Machine

end GeekOS
