import GeekOS.Kernel.StepMoves

/-!
# What a step leaves alone

Frame lemmas. The first part is about moves: without a label that says otherwise, the thread on
the CPU stays there, a wait queue keeps its members and a global variable its value. The second
part is about the fields of the kernel that only some acts change.
-/

namespace GeekOS

open Result

namespace Moves

variable {A : Label → Prop} {c c' : Config}

/-- Without a label for leaving it, a thread stays on the CPU. -/
theorem current_eq {t : ThreadId} (h : Moves A c c') (hready : ¬A (.ready t))
    (hblock : ∀ q, ¬A (.block t q)) (hexit : ∀ code, ¬A (.exit t code)) (hc : c.1 = some t) :
    c'.1 = some t := by
  -- three moves take a thread off the CPU, each with a label of its own
  refine h.invariant (I := fun c => c.1 = some t) ?_ hc
  intro l c₁ c₂ hl hI hm
  cases hm with
  | dispatch => simp at hI
  | ready =>
    obtain rfl := Option.some.inj hI
    exact absurd (hl _ rfl) hready
  | block q =>
    obtain rfl := Option.some.inj hI
    exact absurd (hl _ rfl) (hblock q)
  | exit =>
    obtain rfl := Option.some.inj hI
    exact absurd (hl _ rfl) (hexit _)
  | _ => exact hI

/-- Without a label for it, a wait queue keeps its members. -/
theorem queue_wait_eq {q : WaitQueue} (h : Moves A c c') (hwake : ¬A (.wake q))
    (hblock : ∀ t, ¬A (.block t q)) : c'.2.queue (.wait q) = c.2.queue (.wait q) := by
  refine h.invariant (I := fun c' => c'.2.queue (.wait q) = c.2.queue (.wait q)) ?_ rfl
  intro l c₁ c₂ hl hI hm
  cases hm with
  | @block s t th q' =>
    -- the queue joined or left is another one
    have hne : q ≠ q' := by
      rintro rfl
      exact hblock t (hl _ rfl)
    simpa [threadQueueAppend, hne] using hI
  | @wake x s t rest th q' =>
    have hne : q ≠ q' := by
      rintro rfl
      exact hwake (hl _ rfl)
    simpa [scheduleInto, hne] using hI
  | dispatch | ready | merge => simpa [scheduleInto] using hI
  | spawn | spawnNew => simpa [scheduleInto, allocThread] using hI
  | _ => exact hI

/-- A thread that sleeps after a step slept before, or the step put it to sleep. -/
theorem mem_wait {t : ThreadId} {q : WaitQueue}
    (h : Moves A c c') (ht : t ∈ c'.2.queue (.wait q)) :
    t ∈ c.2.queue (.wait q) ∨ A (.block t q) := by
  -- a wait queue has one way in
  refine h.invariant (I := fun c' => t ∈ c'.2.queue (.wait q) →
    t ∈ c.2.queue (.wait q) ∨ A (.block t q)) ?_ .inl ht
  intro l c₁ c₂ hl hI hm ht
  cases hm with
  | block q' hth hrun =>
    rcases (mem_enqueue (StableInsert.Splits.append _ _)).mp ht with ht | ⟨rfl, hq⟩
    · exact hI ht
    · obtain rfl : q = q' := by simpa using hq
      exact .inr (hl _ rfl)
  | dispatch hq hth => exact hI (mem_of_mem_setQueue hq ht)
  | wake hq hth | merge hq hth =>
    rcases mem_scheduleInto.mp ht with ht | ⟨-, hq'⟩
    · exact hI (mem_of_mem_setQueue hq ht)
    · simp at hq'
  | ready | spawn | spawnNew =>
    rcases mem_scheduleInto.mp ht with ht | ⟨-, hq'⟩
    · exact hI ht
    · simp at hq'
  | touch | globals | detach | exit | prioritize | free | select | preemption | reschedule =>
    exact hI ht

/-- Without a label for waking or for putting a thread to sleep, it sleeps where it slept. -/
theorem mem_wait_iff {t : ThreadId} {q : WaitQueue} (h : Moves A c c') (hwake : ¬A (.wake q))
    (hblock : ¬A (.block t q)) : t ∈ c'.2.queue (.wait q) ↔ t ∈ c.2.queue (.wait q) := by
  refine ⟨fun ht => (h.mem_wait ht).resolve_right hblock, fun ht => ?_⟩
  refine h.invariant (I := fun c' => t ∈ c'.2.queue (.wait q)) ?_ ht
  intro l c₁ c₂ hl hI hm
  cases hm with
  | block q' => exact (mem_enqueue (StableInsert.Splits.append _ _)).mpr (.inl hI)
  | @wake x s u rest th q' hq =>
    -- the queue that is left is another one
    have hne : q ≠ q' := by
      rintro rfl
      exact hwake (hl _ rfl)
    exact mem_scheduleInto.mpr (.inl (by simpa [hne] using hI))
  | dispatch => simpa using hI
  | merge | ready => exact mem_scheduleInto.mpr (.inl (by simpa using hI))
  | spawn | spawnNew => exact mem_scheduleInto.mpr (.inl (by simpa [allocThread] using hI))
  | _ => exact hI

/-- Without a label for it, `g_preemption` keeps its value. -/
theorem gPreemption_eq (h : Moves A c c') (hA : ∀ b, ¬A (.preemption b)) :
    c'.2.gPreemption = c.2.gPreemption := by
  refine h.invariant (I := fun c' => c'.2.gPreemption = c.2.gPreemption) ?_ rfl
  intro l c₁ c₂ hl hI hm
  cases hm with
  | preemption b => exact absurd (hl _ rfl) (hA b)
  | _ => exact hI

/-- Without a label for it, `g_need_reschedule` keeps its value. -/
theorem gNeedReschedule_eq (h : Moves A c c') (hA : ∀ b, ¬A (.reschedule b)) :
    c'.2.gNeedReschedule = c.2.gNeedReschedule := by
  refine h.invariant (I := fun c' => c'.2.gNeedReschedule = c.2.gNeedReschedule) ?_ rfl
  intro l c₁ c₂ hl hI hm
  cases hm with
  | reschedule b => exact absurd (hl _ rfl) (hA b)
  | _ => exact hI

/-- Without a label for it, `g_scheduler` keeps its value. -/
theorem gScheduler_eq (h : Moves A c c') (hA : ∀ g, ¬A (.select g)) :
    c'.2.gScheduler = c.2.gScheduler := by
  refine h.invariant (I := fun c' => c'.2.gScheduler = c.2.gScheduler) ?_ rfl
  intro l c₁ c₂ hl hI hm
  cases hm with
  | select g => exact absurd (hl _ rfl) (hA g)
  | _ => exact hI

end Moves

/-- The return from an interrupt leaves the sleepers alone: the current thread may leave the CPU. -/
theorem intHandleReturn_queue_wait {s s' : Sched} (h : intHandleReturn s = .ok s') (q : WaitQueue) :
    s'.queue (.wait q) = s.queue (.wait q) := by
  obtain ⟨hm, -, -⟩ := intHandleReturn_moves
    (A := fun l => (∃ t, l = .ready t) ∨ ∃ b, l = .reschedule b)
    (fun _ _ => ⟨.inl ⟨_, rfl⟩, .inr ⟨_, rfl⟩⟩) h
  exact hm.queue_wait_eq (by simp) (by simp)

/-! ## The fields of the kernel -/

/-- The fields of `synch.c` are the same. -/
structure Kernel.SameSynch (k k' : Kernel) : Prop where
  mutex : k'.mutex = k.mutex
  holders : k'.holders = k.holders
  woken : k'.woken = k.woken

/-- The history of exits and joins is the same. -/
structure Kernel.SameHistory (k k' : Kernel) : Prop where
  exitArg : k'.exitArg = k.exitArg
  scheduled : k'.scheduled = k.scheduled
  joined : k'.joined = k.joined
  returned : k'.returned = k.returned

namespace Act

/-- The act adds an item to the work queue or takes one. -/
def changesWorkqueue : Act → Bool
  | .work (.link _ _) | .work (.loop _) => true
  | _ => false

/-- The act belongs to an exit or a join. -/
def changesHistory : Act → Bool
  | .thread (.exit _) | .thread (.joinTest _ _) | .thread (.joinReturn _ _) => true
  | _ => false

/-- The act belongs to `synch.c`. -/
def isSynch : Act → Bool
  | .synch _ => true
  | _ => false

end Act

section Run

variable {memory : Memory} {k k' : Kernel} {acts acts' : List Act}

/-- What an act may change beside the thread module. -/
structure Act.Frame (a : Act) (k k' : Kernel) : Prop where
  synch : a.isSynch = false → k.SameSynch k'
  workqueue : a.changesWorkqueue = false → k'.workqueue = k.workqueue
  history : a.changesHistory = false → k.SameHistory k'

/-- An act that changes only the thread module. -/
theorem Act.Frame.of_sched {a : Act} {s : Sched} : a.Frame k { k with sched := s } :=
  ⟨fun _ => ⟨rfl, rfl, rfl⟩, fun _ => rfl, fun _ => ⟨rfl, rfl, rfl, rfl⟩⟩

theorem ThreadStep.frame {a : ThreadAct} (h : ThreadStep memory k a acts k') :
    (Act.thread a).Frame k k' := by
  cases h with
  | exit hd | threadJoin hth hparent hend hd | waitForChild hth hparent hend hd =>
    obtain ⟨th, -, -, -, -, rfl⟩ := detach_eq_ok hd
    exact ⟨fun _ => ⟨rfl, rfl, rfl⟩, fun _ => rfl, by simp [Act.changesHistory]⟩
  | joinReturn =>
    exact ⟨fun _ => ⟨rfl, rfl, rfl⟩, fun _ => rfl, by simp [Act.changesHistory]⟩
  | _ => exact .of_sched

theorem WorkStep.frame {a : WorkAct} (h : WorkStep memory k a acts k') :
    (Act.work a).Frame k k' := by
  cases h with
  | link | loop =>
    exact ⟨fun _ => ⟨rfl, rfl, rfl⟩, by simp [Act.changesWorkqueue], fun _ => ⟨rfl, rfl, rfl, rfl⟩⟩
  | _ => exact .of_sched

theorem KeyboardStep.frame {a : KeyboardAct} (h : KeyboardStep k a acts k') :
    (Act.keyboard a).Frame k k' := by
  cases h <;> exact ⟨fun _ => ⟨rfl, rfl, rfl⟩, fun _ => rfl, fun _ => ⟨rfl, rfl, rfl, rfl⟩⟩

theorem SynchStep.frame {a : SynchAct} (h : SynchStep k a acts k') :
    (Act.synch a).Frame k k' := by
  cases h <;> exact ⟨by simp [Act.isSynch], fun _ => rfl, fun _ => ⟨rfl, rfl, rfl, rfl⟩⟩

theorem SimulationStep.frame {a : SimulationAct} (h : SimulationStep memory k a acts k') :
    (Act.simulation a).Frame k k' := by
  cases h <;> exact ⟨fun _ => ⟨rfl, rfl, rfl⟩, fun _ => rfl, fun _ => ⟨rfl, rfl, rfl, rfl⟩⟩

/-- An act changes only the fields its module owns. -/
theorem Act.run_frame {a : Act} (h : a.run memory k = .ok (acts, k')) : a.Frame k k' := by
  cases a with
  | thread a => exact (ThreadAct.run_step h).frame
  | work a => exact (WorkAct.run_step h).frame
  | keyboard a => exact (KeyboardAct.run_step h).frame
  | synch a => exact (SynchAct.run_step h).frame
  | simulation a => exact (SimulationAct.run_step h).frame

end Run

/-- The event is an interrupt. -/
def Event.IsInterrupt : Event → Prop
  | .timer | .keyboard _ => True
  | .call _ | .resume _ => False

namespace Machine

variable {m m' : Machine} {e : Event}

/-- An interrupt leaves the acts of all threads and the fields of the modules alone, the key
buffer aside. -/
theorem exec_interrupt (h : m.exec e = .ok m') (he : e.IsInterrupt) :
    m'.acts = m.acts ∧ m.kernel.SameSynch m'.kernel ∧
      m'.kernel.workqueue = m.kernel.workqueue ∧ m.kernel.SameHistory m'.kernel := by
  cases e with
  | call a => exact he.elim
  | resume memory => exact he.elim
  | timer =>
    obtain ⟨s₁, -, h⟩ := bind_eq_ok.mp h
    obtain ⟨s₂, -, h⟩ := bind_eq_ok.mp h
    obtain rfl := pure_eq_ok.mp h
    exact ⟨rfl, ⟨rfl, rfl, rfl⟩, rfl, ⟨rfl, rfl, rfl, rfl⟩⟩
  | keyboard keycode =>
    simp only [exec, bind_eq_ok, pure_eq_ok, keyboardIntHandler_eq_ok] at h
    obtain ⟨_, ⟨-, rfl⟩ | ⟨code, s₁, -, -, rfl⟩, s₂, -, rfl⟩ := h <;>
      exact ⟨rfl, ⟨rfl, rfl, rfl⟩, rfl, ⟨rfl, rfl, rfl, rfl⟩⟩

/-- In front of the end of `thread_exit`, interrupts are disabled. -/
theorem Step.acts_ne_exitFinish {code : ℤ} (hs : m.Step e m') (he : e.IsInterrupt) :
    m.acts m.current ≠ [.thread (.exitFinish code)] := by
  intro hacts
  have hen : m.intEnabled := by
    cases e with
    | call | resume => exact he.elim
    | timer => exact hs.1
    | keyboard => exact hs.1.1
  simp [intEnabled, hacts, Act.interruptible] at hen

/-- An interrupt does not store `g_preemption`. -/
theorem not_allows_preemption (he : e.IsInterrupt) (b : Bool) : ¬m.Allows e (.preemption b) := by
  cases e with
  | call a => exact he.elim
  | resume memory => exact he.elim
  | timer => simp [Allows]
  | keyboard keycode => simp [Allows]

/-- While `g_preemption` is off, an interrupt does not take the CPU from the current thread. -/
theorem current_eq_of_interrupt (h : m.exec e = .ok m') (he : e.IsInterrupt)
    (hp : m.kernel.sched.gPreemption = false) : m'.current = m.current := by
  refine Option.some.inj ((exec_moves h).current_eq (t := m.current) ?_ ?_ ?_ rfl) <;>
  · cases e with
    | call a => exact he.elim
    | resume memory => exact he.elim
    | timer => simp [Allows, hp]
    | keyboard keycode => simp [Allows, hp]

end Machine

end GeekOS
