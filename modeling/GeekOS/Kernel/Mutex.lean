import GeekOS.Kernel.Synch

/-!
# Mutexes

The fields of a mutex agree with the thread that holds it, at most one thread holds it, and no
wakeup is lost.

* `MutexSafe`: the invariant, a proof outline of `synch.c` together with what ties the fields of
  a mutex to its holder.
-/

namespace GeekOS

open Result TransitionSystem

/-- What the fields of mutex `x` are while thread `t` is about to go through the act, if they neither
are those of a free mutex nor belong to a thread that holds it. -/
def SynchAct.Fields (x : MutexId) (t : ThreadId) : SynchAct → Mutex → Prop
  -- between the stores of `mutex_lock_imp`
  | .lockOwner y _, v => y = x ∧ v = { state := .locked }
  | .lockReturn y _, v | .unlockImp y _, v | .unlockState y _, v =>
      y = x ∧ v = { state := .locked, owner := some t }
  -- between the stores of `mutex_unlock_imp`
  | .unlockOwner y _, v => y = x ∧ v = { owner := some t }
  | _, _ => False

/-- The fields of the mutexes agree with the threads that hold them. -/
structure MutexSafe (m : Machine) : Prop where
  pre : ∀ u a, .synch a ∈ m.acts u → a.Pre m.kernel u
  holder : ∀ x t, t ∈ m.kernel.holders x →
    m.kernel.mutex x = { state := .locked, owner := some t }
  fields : ∀ x, m.kernel.mutex x = {} ∨ (∃ t, t ∈ m.kernel.holders x) ∨
    ∃ a, m.acts m.current = [.synch a] ∧ a.Fields x m.current (m.kernel.mutex x)

/-- A thread that has got to such an act has preemption off. -/
theorem SynchAct.Fields.preemptionOff {a : SynchAct} {x : MutexId} {t : ThreadId} {v : Mutex}
    (h : a.Fields x t v) : a.preemptionOff = true := by
  cases a <;> simp_all [SynchAct.Fields, SynchAct.preemptionOff]

/-! ## One act -/

section Act

variable {k k' : Kernel} {a b : SynchAct} {acts : List Act}

/-- An act establishes the assertion of the act that follows. -/
theorem SynchStep.pre (h : SynchStep k a [.synch b] k') (ha : a.Pre k k.current)
    (hholder : ∀ x t, t ∈ k.holders x → k.mutex x = { state := .locked, owner := some t })
    (hk : ∀ x, k.mutex x = {} ∨ (∃ t, t ∈ k.holders x) ∨ a.Fields x k.current (k.mutex x)) :
    b.Pre k' k.current := by
  -- the act that follows is read off the list of acts
  generalize hacts : [Act.synch b] = acts at h
  cases h with
  | mutexLock | lockImp | lockPark | lockParked | condPark | condParked =>
    obtain rfl := by simpa using hacts
    trivial
  | lockBusy hstate =>
    obtain rfl := by simpa using hacts
    exact hstate
  | @lockFree x caller hstate =>
    obtain rfl := by simpa using hacts
    -- an unlocked mutex is free, unless the thread in front of the test is between two stores
    rcases hk x with hfree | ⟨t, ht⟩ | hfields
    · exact hfree
    · simp [hholder x t ht] at hstate
    · exact hfields.elim
  | lockState x caller =>
    obtain rfl := by simpa using hacts
    simp [SynchAct.Pre, show k.mutex x = {} from ha]
  | lockOwner x caller =>
    obtain rfl := by simpa using hacts
    simp [SynchAct.Pre, show k.mutex x = { state := .locked } from ha]
  | mutexUnlock x | condWait =>
    obtain rfl := by simpa using hacts
    exact fun hmem => (Kernel.mem_unhold.mp hmem).2 ⟨rfl, rfl⟩
  | @unlockImp x caller hp hheld =>
    obtain rfl := by simpa using hacts
    exact ⟨Mutex.ext hheld.1 hheld.2, ha⟩
  | unlockState x caller =>
    obtain rfl := by simpa using hacts
    simp [SynchAct.Pre, ha.1]
  | unlockOwner x caller =>
    obtain rfl := by simpa using hacts
    simp [SynchAct.Pre, show k.mutex x = { owner := some k.current } from ha]
  | @unlockAlone x caller =>
    cases caller with
    | mutex =>
      obtain rfl := by simpa [SynchCaller.afterUnlock] using hacts
      trivial
    | cond c =>
      obtain rfl := by simpa [SynchCaller.afterUnlock] using hacts
      exact ha
  | unlockWaited hqueue =>
    obtain rfl := by simpa using hacts
    exact ⟨ha, hqueue⟩
  | @unlockWake x caller =>
    cases caller with
    | mutex =>
      obtain rfl := by simpa [SynchCaller.afterUnlock] using hacts
      trivial
    | cond c =>
      obtain rfl := by simpa [SynchCaller.afterUnlock] using hacts
      exact ha.1
  | lockReturn | unlockReturn | condSignal | condBroadcast => simp at hacts

/-- An act leaves a mutex locked and owned by each of its holders. -/
theorem SynchStep.holder (h : SynchStep k a acts k') (ha : a.Pre k k.current)
    (hk : ∀ x t, t ∈ k.holders x → k.mutex x = { state := .locked, owner := some t })
    (x : MutexId) (t : ThreadId) (ht : t ∈ k'.holders x) :
    k'.mutex x = { state := .locked, owner := some t } := by
  -- a mutex to which the act stores is not held
  have hne : ∀ {y}, t ∈ k.holders x → k.mutex y ≠ { state := .locked, owner := some t } → x ≠ y := by
    rintro y hmem hfields rfl
    exact hfields (hk x t hmem)
  cases h with
  | lockState y caller =>
    have hxy : x ≠ y := hne ht (by simp [show k.mutex y = {} from ha])
    exact (Kernel.setState_of_ne hxy).trans (hk x t ht)
  | lockOwner y caller =>
    have hxy : x ≠ y := hne ht (by simp [show k.mutex y = { state := .locked } from ha])
    exact (Kernel.setOwner_of_ne hxy).trans (hk x t ht)
  | lockReturn y caller =>
    rcases Kernel.mem_hold.mp ht with ht | ⟨rfl, rfl⟩
    · exact hk x t ht
    · exact ha
  | mutexUnlock y | @condWait c y => exact hk x t (Kernel.mem_unhold.mp ht).1
  | unlockState y caller =>
    -- the current thread owns it, but is no longer among its holders
    have hxy : x ≠ y := by
      rintro rfl
      have howner := (hk x t ht).symm.trans ha.1
      obtain rfl : t = k.current := by simpa using howner
      exact ha.2 ht
    exact (Kernel.setState_of_ne hxy).trans (hk x t ht)
  | unlockOwner y caller =>
    have hxy : x ≠ y := hne ht (by simp [show k.mutex y = { owner := some k.current } from ha])
    exact (Kernel.setOwner_of_ne hxy).trans (hk x t ht)
  | _ => exact hk x t ht

/-- A mutex is free behind an act, or held, or the thread is about to go on with its stores. -/
theorem SynchStep.fields (h : SynchStep k a acts k') (ha : a.Pre k k.current)
    (hholder : ∀ x t, t ∈ k.holders x → k.mutex x = { state := .locked, owner := some t })
    (x : MutexId)
    (hx : k.mutex x = {} ∨ (∃ t, t ∈ k.holders x) ∨ a.Fields x k.current (k.mutex x)) :
    k'.mutex x = {} ∨ (∃ t, t ∈ k'.holders x) ∨
      ∃ b, acts = [.synch b] ∧ b.Fields x k.current (k'.mutex x) := by
  -- an act that is not about the fields of this mutex
  have hkeep : (∀ v, ¬a.Fields x k.current v) →
      k.mutex x = {} ∨ (∃ t, t ∈ k.holders x) := fun hne => by
    rcases hx with hfree | hheld | hfields
    · exact .inl hfree
    · exact .inr hheld
    · exact absurd hfields (hne _)
  -- a store to the fields of another mutex
  have hother : ∀ {y} {k₁ : Kernel}, x ≠ y → (∀ v, a.Fields x k.current v → y = x) →
      k₁.mutex x = k.mutex x → k₁.holders = k.holders →
      k₁.mutex x = {} ∨ (∃ t, t ∈ k₁.holders x) ∨
        ∃ b, acts = [.synch b] ∧ b.Fields x k.current (k₁.mutex x) := by
    intro y k₁ hxy hfields hmutex hholders
    rw [hmutex, hholders]
    exact (hkeep fun v hv => hxy (hfields v hv).symm).imp_right .inl
  cases h with
  | lockState y caller =>
    by_cases hxy : x = y
    · subst hxy
      exact .inr (.inr ⟨_, rfl, rfl, by simp [show k.mutex x = {} from ha]⟩)
    · exact hother hxy (fun _ => False.elim) (Kernel.setState_of_ne hxy) rfl
  | lockOwner y caller =>
    by_cases hxy : x = y
    · subst hxy
      exact .inr (.inr ⟨_, rfl, rfl, by simp [show k.mutex x = { state := .locked } from ha]⟩)
    · exact hother hxy (fun v hv => hv.1) (Kernel.setOwner_of_ne hxy) rfl
  | lockReturn y caller =>
    by_cases hxy : x = y
    · exact .inr (.inl ⟨k.current, Kernel.mem_hold.mpr (.inr ⟨rfl, hxy⟩)⟩)
    · rcases hkeep (fun v hv => hxy hv.1.symm) with hfree | ⟨t, ht⟩
      · exact .inl hfree
      · exact .inr (.inl ⟨t, Kernel.mem_hold.mpr (.inl ht)⟩)
  | mutexUnlock y | @condWait c y =>
    rcases hkeep (fun _ => False.elim) with hfree | ⟨t, ht⟩
    · exact .inl hfree
    · by_cases hcur : t = k.current ∧ x = y
      · -- the thread gives the mutex up, and still owns it
        obtain ⟨rfl, rfl⟩ := hcur
        exact .inr (.inr ⟨_, rfl, rfl, hholder x _ ht⟩)
      · exact .inr (.inl ⟨t, Kernel.mem_unhold.mpr ⟨ht, hcur⟩⟩)
  | @unlockImp y caller hp hheld =>
    by_cases hxy : x = y
    · subst hxy
      exact .inr (.inr ⟨_, rfl, rfl, Mutex.ext hheld.1 hheld.2⟩)
    · exact hother hxy (fun v hv => hv.1) rfl rfl
  | unlockState y caller =>
    by_cases hxy : x = y
    · subst hxy
      exact .inr (.inr ⟨_, rfl, rfl, by simp [ha.1]⟩)
    · exact hother hxy (fun v hv => hv.1) (Kernel.setState_of_ne hxy) rfl
  | unlockOwner y caller =>
    by_cases hxy : x = y
    · subst hxy
      exact .inl (by simp [show k.mutex x = { owner := some k.current } from ha])
    · exact hother hxy (fun v hv => hv.1) (Kernel.setOwner_of_ne hxy) rfl
  | _ => exact (hkeep fun _ => False.elim).imp_right .inl

end Act

/-! ## One step -/

namespace MutexSafe

variable {m m' : Machine} {e : Event}

/-- What the invariant says of a mutex depends on its fields, its holders and the acts of the
current thread. -/
theorem congr (h : MutexSafe m) (hsame : m.kernel.SameSynch m'.kernel)
    (hpre : ∀ u a, .synch a ∈ m'.acts u → a.Pre m'.kernel u)
    (hstay : ∀ x a v, m.acts m.current = [.synch a] → a.Fields x m.current v →
      m'.current = m.current ∧ m'.acts m.current = m.acts m.current) : MutexSafe m' := by
  refine ⟨hpre, ?_, fun x => ?_⟩
  · rw [hsame.mutex, hsame.holders]
    exact h.holder
  · rw [hsame.mutex, hsame.holders]
    refine (h.fields x).imp_right (.imp_right ?_)
    rintro ⟨a, hacts, hfields⟩
    obtain ⟨hcur, hacts'⟩ := hstay x a _ hacts hfields
    exact ⟨a, by rw [hcur, hacts', hacts], by rwa [hcur]⟩

/-- An assertion is about the fields of a mutex and its wait queue. -/
theorem pre_congr {k k' : Kernel} {a : SynchAct} {t : ThreadId} (hsame : k.SameSynch k')
    (hqueue : ∀ x, k'.sched.queue (.wait (.mutex x)) = k.sched.queue (.wait (.mutex x)))
    (ha : a.Pre k t) : a.Pre k' t := by
  cases a <;> simp only [SynchAct.Pre, hsame.mutex, hsame.holders, hqueue] at ha ⊢ <;> exact ha

/-- An interrupt leaves the wait queues of mutexes alone. -/
theorem queue_eq_of_interrupt (hs : m.Step e m') (he : e.IsInterrupt) (x : MutexId) :
    m'.kernel.sched.queue (.wait (.mutex x)) = m.kernel.sched.queue (.wait (.mutex x)) := by
  refine (Machine.exec_moves hs.2).queue_wait_eq ?_ fun t => ?_ <;>
  · cases e with
    | call a | resume memory => exact he.elim
    | timer | keyboard keycode => simp [Machine.Allows]

/-- Every step keeps the invariant. -/
theorem step (h : MutexSafe m) (hc : SynchControl m) (hs : m.Step e m') : MutexSafe m' := by
  -- acts of threads other than the current one assert nothing
  have hother : ∀ u a, u ≠ m.current → .synch a ∈ m'.acts u → a.Pre m'.kernel u := by
    intro u a hu ha
    rw [Machine.exec_acts_of_ne hs.2 hu] at ha
    exact SynchAct.pre_of_preemptionOff_eq_false (hc.preemptionOff_eq_false ha hu)
  cases hc.step_cases hs with
  | interrupt he hacts hsame =>
    refine h.congr hsame (fun u a ha => ?_) fun x a v ha hfields => ?_
    · rw [hacts] at ha
      exact pre_congr hsame (queue_eq_of_interrupt hs he) (h.pre u a ha)
    · -- preemption is off, so the thread keeps the CPU
      have hp := (hc.cpu _ a (ha ▸ List.mem_cons_self) hfields.preemptionOff).2
      exact ⟨Machine.current_eq_of_interrupt hs.2 he hp, by rw [hacts]⟩
  | other hbefore hafter hsame =>
    refine h.congr hsame (fun u a ha => ?_) fun x a v ha _ => ?_
    · by_cases hu : u = m.current
      · subst hu
        have hoff := SynchAct.preemptionOff_of_isCall (hafter a ha).1
        exact SynchAct.pre_of_preemptionOff_eq_false hoff
      · exact hother u a hu ha
    · exact absurd (ha ▸ List.mem_cons_self) (hbefore a)
  | @synch a acts k' hacts hstep hacts' hk =>
    have ha : a.Pre m.kernel m.current := h.pre _ a (hacts ▸ List.mem_cons_self)
    have hfields : ∀ x, m.kernel.mutex x = {} ∨ (∃ t, t ∈ m.kernel.holders x) ∨
        a.Fields x m.current (m.kernel.mutex x) := by
      refine fun x => (h.fields x).imp_right (.imp_right ?_)
      rintro ⟨b, hb, hfields⟩
      obtain rfl : a = b := by simpa [hacts] using hb
      exact hfields
    refine ⟨fun u b hb => ?_, ?_, fun x => ?_⟩
    · by_cases hu : u = m.current
      · subst hu
        rw [hacts'] at hb
        rw [hstep.acts_eq hb] at hstep
        rw [hk]
        exact hstep.pre ha h.holder hfields
      · exact hother u b hu hb
    · rw [hk]
      exact hstep.holder ha h.holder
    · rw [hk]
      refine (hstep.fields ha h.holder x (hfields x)).imp_right (.imp_right ?_)
      rintro ⟨b, rfl, hb⟩
      -- the thread has kept the CPU
      have hcur : m.current = m'.current :=
        ((hc.step hs).cpu _ b (hacts' ▸ List.mem_cons_self) hb.preemptionOff).1
      exact ⟨b, by rw [← hcur, hacts'], by rwa [← hcur]⟩

end MutexSafe

theorem mutexSafe_boot : MutexSafe boot where
  pre u a ha := absurd ha (synch_not_mem_boot u a)
  holder _ _ ht := absurd ht List.not_mem_nil
  fields _ := .inl rfl

theorem reachable_mutexSafe {m : Machine} (h : Reachable Machine.Step boot m) : MutexSafe m := by
  have hI : SynchControl m ∧ MutexSafe m :=
    h.invariant (I := fun m => SynchControl m ∧ MutexSafe m) ⟨synchControl_boot, mutexSafe_boot⟩
      fun _ _ _ hI hs => ⟨hI.1.step hs, hI.2.step hI.1 hs⟩
  exact hI.2

end GeekOS
