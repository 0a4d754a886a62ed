import GeekOS.Kernel.Control
import GeekOS.Kernel.Reachable

/-!
# The control of `synch.c`

The functions of `synch.c` keep `g_preemption` off wherever they rely on the fields of a mutex, and
an interrupt then returns to the thread it came from. So each of their acts has an assertion that
holds when it is about to start (`SynchAct.Pre`), whatever the other threads do.

* `SynchStep.acts_eq`: at most one act of `synch.c` follows another;
* `SynchControl`: a thread that is about to go through an act that needs preemption off has the
  CPU, and preemption is off;
* `SynchControl.step_cases`: what a step is from the point of view of `synch.c`.
-/

namespace GeekOS

open Result TransitionSystem

/-! ## The fields that `synch.c` stores -/

namespace Kernel

variable {k : Kernel} {x y : MutexId} {t : ThreadId} {b : Bool}

@[simp] theorem setPreemption_mutex : (k.setPreemption b).mutex = k.mutex := rfl
@[simp] theorem setPreemption_holders : (k.setPreemption b).holders = k.holders := rfl
@[simp] theorem setPreemption_woken : (k.setPreemption b).woken = k.woken := rfl
@[simp] theorem setPreemption_current : (k.setPreemption b).current = k.current := rfl

@[simp] theorem setState_mutex (state : MutexState) :
    (k.setState x state).mutex x = { k.mutex x with state } := Function.update_self ..
@[simp] theorem setOwner_mutex (owner : Option ThreadId) :
    (k.setOwner x owner).mutex x = { k.mutex x with owner } := Function.update_self ..
@[simp] theorem unwake_mutex : (k.unwake x).mutex = k.mutex := rfl
@[simp] theorem setState_woken (state : MutexState) : (k.setState x state).woken = k.woken := rfl

theorem setState_of_ne {state : MutexState} (hxy : x ≠ y) :
    (k.setState y state).mutex x = k.mutex x :=
  Function.update_of_ne hxy ..

theorem setOwner_of_ne {owner : Option ThreadId} (hxy : x ≠ y) :
    (k.setOwner y owner).mutex x = k.mutex x :=
  Function.update_of_ne hxy ..

theorem mem_hold : t ∈ (k.hold y).holders x ↔ t ∈ k.holders x ∨ t = k.current ∧ x = y := by
  by_cases hxy : x = y
  · subst hxy
    simp [hold, or_comm]
  · simp [hold, hxy]

theorem mem_unhold :
    t ∈ (k.unhold y).holders x ↔ t ∈ k.holders x ∧ ¬(t = k.current ∧ x = y) := by
  by_cases hxy : x = y
  · subst hxy
    simp [unhold]
  · simp [unhold, hxy]

theorem mem_unwake : t ∈ (k.unwake y).woken x ↔ t ∈ k.woken x ∧ ¬(t = k.current ∧ x = y) := by
  by_cases hxy : x = y
  · subst hxy
    simp [unwake]
  · simp [unwake, hxy]

end Kernel

/-! ## The acts -/

namespace SynchAct

variable {k : Kernel}

/-- Preemption is off when the act is about to start. -/
def preemptionOff : SynchAct → Bool
  | .lockImp _ _ | .lockTest _ _ | .lockPark _ _ | .lockState _ _ | .lockOwner _ _
  | .lockReturn _ _ | .unlockImp _ _ | .unlockState _ _ | .unlockOwner _ _ | .unlockTest _ _
  | .unlockWake _ _ | .unlockReturn | .condPark _ _ => true
  | _ => false

theorem preemptionOff_of_isCall {a : SynchAct} (h : (Act.synch a).isCall = true) :
    a.preemptionOff = false := by
  cases a <;> simp_all [Act.isCall, preemptionOff]

/-- The assertion that holds when thread `t` is about to go through the act. -/
def Pre (k : Kernel) (t : ThreadId) : SynchAct → Prop
  | .lockState x _ => k.mutex x = {}
  | .lockOwner x _ => k.mutex x = { state := .locked }
  | .lockPark x _ => (k.mutex x).state = .locked
  | .lockReturn x _ => k.mutex x = { state := .locked, owner := some t }
  | .unlockImp x _ => t ∉ k.holders x
  | .unlockState x _ => k.mutex x = { state := .locked, owner := some t } ∧ t ∉ k.holders x
  | .unlockOwner x _ => k.mutex x = { owner := some t }
  | .unlockTest x _ | .condPark _ x => (k.mutex x).state = .unlocked
  | .unlockWake x _ =>
      (k.mutex x).state = .unlocked ∧ k.sched.queue (.wait (.mutex x)) ≠ []
  | _ => True

/-- Only acts that need preemption off assert anything. -/
theorem pre_of_preemptionOff_eq_false {a : SynchAct} {t : ThreadId}
    (h : a.preemptionOff = false) : a.Pre k t := by
  cases a <;> trivial

end SynchAct

/-- At most one act follows an act of `synch.c`, and it belongs to `synch.c` too. -/
theorem SynchStep.acts_eq {k k' : Kernel} {a b : SynchAct} {acts : List Act}
    (h : SynchStep k a acts k') (hb : .synch b ∈ acts) : acts = [.synch b] := by
  cases h with
  | @unlockAlone x caller | @unlockWake x caller =>
    cases caller <;> simp_all [SynchCaller.afterUnlock]
  | _ => simp_all

/-- No act of another module is followed by one of `synch.c`. -/
theorem Act.not_follows_synch {k : Kernel} {a : Act} {b : SynchAct} {acts : List Act}
    (ha : a.isSynch = false) (h : a.Follows k acts) : .synch b ∉ acts := by
  intro hb
  cases h.leadsTo hb
  simp [isSynch] at ha

/-! ## The steps -/

/-- What a step is from the point of view of `synch.c`. -/
inductive Machine.SynchCases (m : Machine) (e : Event) (m' : Machine) : Prop
  /-- An interrupt. -/
  | interrupt (he : e.IsInterrupt) (hacts : m'.acts = m.acts)
      (hsame : m.kernel.SameSynch m'.kernel)
  /-- The current thread calls a function or goes through an act of another module. -/
  | other (hbefore : ∀ a, .synch a ∉ m.acts m.current)
      (hafter : ∀ a, .synch a ∈ m'.acts m.current →
        (Act.synch a).isCall = true ∧ m'.acts m.current = [.synch a])
      (hsame : m.kernel.SameSynch m'.kernel)
  /-- The current thread goes through an act of `synch.c`. -/
  | synch {a : SynchAct} {acts : List Act} {k' : Kernel}
      (hacts : m.acts m.current = [.synch a]) (hstep : SynchStep m.kernel a acts k')
      (hacts' : m'.acts m.current = acts) (hk : m'.kernel = k')

/-- An act that needs preemption off behind another act of `synch.c` has it off, and the thread has
kept the CPU. -/
theorem SynchStep.cpu {k k' : Kernel} {a b : SynchAct} (h : SynchStep k a [.synch b] k')
    (ha : a.preemptionOff = true → k.sched.gPreemption = false) (hb : b.preemptionOff = true) :
    k'.current = k.current ∧ k'.sched.gPreemption = false := by
  generalize hacts : [Act.synch b] = acts at h
  cases h with
  | mutexLock | lockParked | mutexUnlock | condWait | condParked => exact ⟨rfl, rfl⟩
  | lockImp hp | unlockImp hp => exact ⟨rfl, hp⟩
  | lockBusy | lockFree | lockState | lockOwner | unlockState | unlockOwner | unlockAlone
  | unlockWaited => exact ⟨rfl, ha rfl⟩
  | unlockWake hs =>
    obtain ⟨_, _, _, -, -, -, -, rfl⟩ := threadWakeupOne_eq_ok.mp hs
    exact ⟨rfl, ha rfl⟩
  | lockPark | condPark =>
    -- behind the context switch, preemption is what the thread switched to needs
    obtain rfl := by simpa using hacts
    simp [SynchAct.preemptionOff] at hb
  | lockReturn | unlockReturn | condSignal | condBroadcast => simp at hacts

/-- Where the threads stand in `synch.c`. -/
structure SynchControl (m : Machine) : Prop where
  single : ∀ u a, .synch a ∈ m.acts u → m.acts u = [.synch a]
  cpu : ∀ u a, .synch a ∈ m.acts u → a.preemptionOff = true →
    u = m.current ∧ m.kernel.sched.gPreemption = false

namespace SynchControl

variable {m m' : Machine} {e : Event} {u : ThreadId}

/-- Every step is of one of the three kinds. -/
theorem step_cases (h : SynchControl m) (hs : m.Step e m') : m.SynchCases e m' := by
  rcases Machine.step_cases hs with ⟨he, hacts⟩ | ⟨a, rfl, hnil, hcall, rfl⟩ |
    ⟨memory, a, rest, acts, k', rfl, hacts, hk, rfl⟩
  · exact .interrupt he hacts (Machine.exec_interrupt hs.2 he).2.1
  · refine .other (by simp [hnil]) (fun b hb => ?_) ⟨rfl, rfl, rfl⟩
    obtain rfl : .synch b = a := by simpa using hb
    exact ⟨hcall, Function.update_self ..⟩
  · cases hsynch : a.isSynch with
    | true =>
      cases a with
      | synch a =>
        -- nothing waits behind an act of `synch.c`, so what follows it is all there is
        have hsingle := h.single m.current a (hacts ▸ List.mem_cons_self)
        obtain rfl : rest = [] := by simpa [hacts] using hsingle
        exact .synch hacts (SynchAct.run_step hk) (by simp) rfl
      | thread a | work a | keyboard a | simulation a => simp [Act.isSynch] at hsynch
    | false =>
      have hbefore : ∀ b, .synch b ∉ m.acts m.current := by
        intro b hb
        have hsingle := h.single _ b hb
        obtain ⟨rfl, -⟩ := List.cons.inj (hacts.symm.trans hsingle)
        simp [Act.isSynch] at hsynch
      refine .other hbefore (fun b hb => ?_) ((Act.run_frame hk).synch hsynch)
      rcases List.mem_append.mp (by simpa using hb) with hb | hb
      · exact absurd hb (Act.not_follows_synch hsynch (Act.run_follows hk))
      · exact absurd (hacts ▸ List.mem_cons_of_mem _ hb) (hbefore b)

/-- While an act that needs preemption off is pending, the other threads have none of them. -/
theorem preemptionOff_eq_false {a : SynchAct} (h : SynchControl m) (ha : .synch a ∈ m.acts u)
    (hu : u ≠ m.current) : a.preemptionOff = false := by
  by_contra hoff
  exact hu (h.cpu u a ha (by simpa using hoff)).1

/-- Every step keeps the control. -/
theorem step (h : SynchControl m) (hs : m.Step e m') : SynchControl m' := by
  constructor
  · intro u a ha
    by_cases hu : u = m.current
    · subst hu
      cases h.step_cases hs with
      | interrupt he hacts hsame =>
        rw [hacts] at ha ⊢
        exact h.single _ a ha
      | other hbefore hafter hsame => exact (hafter a ha).2
      | synch hacts hstep hacts' hk =>
        rw [hacts'] at ha ⊢
        exact hstep.acts_eq ha
    · rw [Machine.exec_acts_of_ne hs.2 hu] at ha ⊢
      exact h.single u a ha
  · intro u a ha hoff
    have hother : u ≠ m.current → False := by
      intro hu
      rw [Machine.exec_acts_of_ne hs.2 hu] at ha
      rw [h.preemptionOff_eq_false ha hu] at hoff
      exact Bool.false_ne_true hoff
    obtain rfl : u = m.current := by
      by_contra hu
      exact hother hu
    cases h.step_cases hs with
    | interrupt he hacts hsame =>
      rw [hacts] at ha
      obtain ⟨-, hp⟩ := h.cpu _ a ha hoff
      refine ⟨(Machine.current_eq_of_interrupt hs.2 he hp).symm, ?_⟩
      -- the interrupt found preemption off and returned to this thread
      rw [(Machine.exec_moves hs.2).gPreemption_eq (Machine.not_allows_preemption he)]
      exact hp
    | other hbefore hafter hsame =>
      -- a function that has just been called has not needed it yet
      rw [SynchAct.preemptionOff_of_isCall (hafter a ha).1] at hoff
      exact absurd hoff Bool.false_ne_true
    | @synch b acts k' hacts hstep hacts' hk =>
      rw [hacts'] at ha
      rw [hstep.acts_eq ha] at hstep
      have hb := fun hb => (h.cpu _ b (hacts ▸ List.mem_cons_self) hb).2
      obtain ⟨hcur, hp⟩ := hstep.cpu hb hoff
      unfold Machine.current
      rw [hk]
      exact ⟨hcur.symm, hp⟩

end SynchControl

/-- No thread is in `synch.c` when the initialisation is over. -/
theorem synch_not_mem_boot (u : ThreadId) (a : SynchAct) : .synch a ∉ boot.acts u := by
  intro ha
  rcases mem_boot_acts ha with h | h <;> simp at h

theorem synchControl_boot : SynchControl boot :=
  ⟨fun u a ha => absurd ha (synch_not_mem_boot u a),
    fun u a ha => absurd ha (synch_not_mem_boot u a)⟩

theorem reachable_synchControl {m : Machine} (h : Reachable Machine.Step boot m) :
    SynchControl m :=
  h.invariant synchControl_boot fun _ _ _ hI hs => hI.step hs

end GeekOS
