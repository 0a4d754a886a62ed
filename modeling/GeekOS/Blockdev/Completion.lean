import GeekOS.Library.Threads
import GeekOS.Blockdev.Request

/-!
# Waiting for the completion of a request

`blockdev_wait_for_completion` and `blockdev_notify_complete` of one request, store by store. Any
number of threads call the former, and one thread or interrupt handler calls the latter once, before,
between or after them.

There is one processor. A thread that has come past `int_begin_atomic` keeps it up to
`int_end_atomic`, except that `thread_schedule` in `thread_wait` gives it to other threads. A thread
that sleeps is in the wait queue of the request; when it has been taken out of it and runs again, it
still is in its atomic section.

* `Outline`: what holds where a thread is, and `Coherent`: the invariant;
* `completes_of_run`: nobody sleeps behind the notification, nobody returns before it, and everybody
  returns its code.
-/

namespace GeekOS.Blockdev.Completion

open Result Threads

/-- Where a thread is in `blockdev_wait_for_completion`. -/
inductive WaitPoint
  /-- At `int_begin_atomic`. -/
  | begin
  /-- At the test of the loop. -/
  | test
  /-- In `thread_wait`, in front of `thread_queue_append`. -/
  | sleep
  /-- In `thread_schedule`, asleep or runnable. -/
  | asleep
  /-- At `int_end_atomic`. -/
  | leave
  /-- At `return req->rc`. -/
  | read
  deriving DecidableEq, Repr

/-- How often the thread goes on until it has returned, if it does not sleep again. -/
def WaitPoint.left : WaitPoint → ℕ
  | .begin | .asleep => 4
  | .test => 3
  | .sleep => 5
  | .leave => 2
  | .read => 1

/-- Where it is in `blockdev_notify_complete`. -/
inductive NotifyPoint
  /-- At `int_begin_atomic`. -/
  | begin
  /-- At `req->state = BLOCKDEV_REQ_FINISHED`. -/
  | setState
  /-- At `req->rc = rc`. -/
  | setRc
  /-- At the test of the loop in `thread_wakeup`. -/
  | wakeup
  /-- At `int_end_atomic`. -/
  | leave
  deriving DecidableEq, Repr

/-- Where a thread is. -/
inductive Pc
  | idle
  | wait (p : WaitPoint)
  | notify (p : NotifyPoint) (rc : ℤ)
  deriving DecidableEq, Repr

/-- The points where the thread runs with interrupts disabled. -/
def Pc.Atomic : Pc → Prop
  | .wait p => p = .test ∨ p = .sleep ∨ p = .leave
  | .notify p _ => p ≠ .begin
  | .idle => False

instance : DecidablePred Pc.Atomic := fun p => by
  cases p <;> unfold Pc.Atomic <;> infer_instance

/-- The points in `blockdev_notify_complete`. -/
def Pc.Notifies : Pc → Prop
  | .notify _ _ => True
  | _ => False

/-- The request, the threads and the processor. -/
structure State (T : Type) where
  req : Request
  waitqueue : List T
  pc : T → Pc
  /-- The thread that runs with interrupts disabled. -/
  atomic : Option T
  /-- History: `blockdev_notify_complete` has been called. -/
  called : Bool
  /-- History: the code of a call of `blockdev_notify_complete` that has returned. -/
  notified : Option ℤ
  /-- History: what calls of `blockdev_wait_for_completion` have returned. -/
  returned : List (T × ℤ)

/-- `KASSERT(!int_enabled())` fails. -/
inductive IntFault
  | intEnabled
  deriving DecidableEq, Repr

/-- What can happen next. -/
inductive Event (T : Type)
  | waitForCompletion (t : T)
  | notifyComplete (t : T) (rc : ℤ)
  /-- A thread makes its next access. -/
  | resume (t : T)
  deriving DecidableEq, Repr

/-- The thread that comes. -/
def Event.thread {T : Type} : Event T → T
  | .waitForCompletion t | .notifyComplete t _ | .resume t => t

variable {T : Type} [DecidableEq T]

namespace State

variable (s : State T)

/-- A thread comes to its next point. -/
def goto (t : T) (p : Pc) : State T :=
  { s with pc := Function.update s.pc t p, atomic := ownerAt Pc.Atomic t p }

/-- One round of the loop of `thread_wakeup`, or its end. -/
def threadWakeup (t : T) (rc : ℤ) : Except IntFault (State T) :=
  match s.waitqueue with
  | [] => pure (s.goto t (.notify .leave rc))
  | _ :: waitqueue => do
      -- `thread_wakeup_one`
      require (s.atomic = some t) .intEnabled
      pure { s.goto t (.notify .wakeup rc) with waitqueue }

/-- The next access of a thread. -/
def resume (t : T) : Except IntFault (State T) :=
  match s.pc t with
  | .idle => pure s
  | .wait .begin => pure (s.goto t (.wait .test))
  | .wait .test =>
      if s.req.state = .pending then pure (s.goto t (.wait .sleep))
      else pure (s.goto t (.wait .leave))
  | .wait .sleep => do
      require (s.atomic = some t) .intEnabled
      pure { s.goto t (.wait .asleep) with waitqueue := s.waitqueue ++ [t] }
  | .wait .asleep => pure (s.goto t (.wait .test))
  | .wait .leave => pure (s.goto t (.wait .read))
  | .wait .read => pure { s.goto t .idle with returned := (t, s.req.rc) :: s.returned }
  | .notify .begin rc => pure (s.goto t (.notify .setState rc))
  | .notify .setState rc =>
      pure { s.goto t (.notify .setRc rc) with req := { s.req with state := .finished } }
  | .notify .setRc rc => pure { s.goto t (.notify .wakeup rc) with req := { s.req with rc } }
  | .notify .wakeup rc => s.threadWakeup t rc
  | .notify .leave rc => pure { s.goto t .idle with notified := some rc }

/-- Carry out an event. -/
def exec : Event T → Except IntFault (State T)
  | .waitForCompletion t => pure (s.goto t (.wait .begin))
  | .notifyComplete t rc => pure { s.goto t (.notify .begin rc) with called := true }
  | .resume t => s.resume t

/-- The event can come now: interrupts are enabled or it is the next of the thread that has disabled
them, and no thread that sleeps runs. The notification is called once. -/
def Enabled : Event T → Prop
  | .waitForCompletion t => Ready t s.atomic ∧ s.pc t = .idle
  | .notifyComplete t _ => Ready t s.atomic ∧ s.pc t = .idle ∧ s.called = false
  | .resume t => Ready t s.atomic ∧ s.pc t ≠ .idle ∧ t ∉ s.waitqueue

instance (e : Event T) : Decidable (s.Enabled e) := by
  induction e using Event.casesOn <;> unfold Enabled <;> infer_instance

/-- One step. -/
def Step : State T → Event T → State T → Prop := TransitionSystem.stepOf Enabled exec

/-- A pending request that nobody has called anything for. -/
structure Initial : Prop where
  pending : s.req.state = .pending
  waitqueue : s.waitqueue = []
  idle : ∀ t, s.pc t = .idle
  atomic : s.atomic = none
  called : s.called = false
  notified : s.notified = none
  returned : s.returned = []

/-! ## What a step does -/

/-- The calls and the accesses of a thread that can run, with the states they lead to. -/
inductive Access (t : T) : Pc → State T → Prop
  | wait : Access t .idle (s.goto t (.wait .begin))
  | call {rc : ℤ} (h : s.called = false) :
      Access t .idle { s.goto t (.notify .begin rc) with called := true }
  | begin : Access t (.wait .begin) (s.goto t (.wait .test))
  | pending (h : s.req.state = .pending) : Access t (.wait .test) (s.goto t (.wait .sleep))
  | finished (h : s.req.state = .finished) : Access t (.wait .test) (s.goto t (.wait .leave))
  | sleep : Access t (.wait .sleep)
      { s.goto t (.wait .asleep) with waitqueue := s.waitqueue ++ [t] }
  | awake (h : t ∉ s.waitqueue) : Access t (.wait .asleep) (s.goto t (.wait .test))
  | leave : Access t (.wait .leave) (s.goto t (.wait .read))
  | read : Access t (.wait .read) { s.goto t .idle with returned := (t, s.req.rc) :: s.returned }
  | notify {rc : ℤ} : Access t (.notify .begin rc) (s.goto t (.notify .setState rc))
  | setState {rc : ℤ} : Access t (.notify .setState rc)
      { s.goto t (.notify .setRc rc) with req := { s.req with state := .finished } }
  | setRc {rc : ℤ} : Access t (.notify .setRc rc)
      { s.goto t (.notify .wakeup rc) with req := { s.req with rc } }
  | wake {rc : ℤ} {u : T} {waitqueue : List T} (h : s.waitqueue = u :: waitqueue) :
      Access t (.notify .wakeup rc) { s.goto t (.notify .wakeup rc) with waitqueue }
  | woken {rc : ℤ} (h : s.waitqueue = []) :
      Access t (.notify .wakeup rc) (s.goto t (.notify .leave rc))
  | notified {rc : ℤ} : Access t (.notify .leave rc) { s.goto t .idle with notified := some rc }

variable {s} {s' : State T} {t u : T} {rc : ℤ}

theorem Access.of_resume (h : s.resume t = .ok s') (hpc : s.pc t ≠ .idle) (ht : t ∉ s.waitqueue) :
    s.Access t (s.pc t) s' := by
  unfold resume at h
  split at h
  next hidle => exact absurd hidle hpc
  next hp =>
    obtain rfl := pure_eq_ok.mp h
    exact hp ▸ .begin
  next hp =>
    rw [hp]
    split at h
    next hstate =>
      obtain rfl := pure_eq_ok.mp h
      exact .pending hstate
    next hstate =>
      obtain rfl := pure_eq_ok.mp h
      refine .finished ?_
      cases hs : s.req.state with
      | pending => exact absurd hs hstate
      | finished => rfl
  next hp =>
    rw [hp]
    obtain ⟨-, -, heq⟩ := bind_eq_ok.mp h
    obtain rfl := pure_eq_ok.mp heq
    exact .sleep
  next hp =>
    obtain rfl := pure_eq_ok.mp h
    exact hp ▸ .awake ht
  next hp =>
    obtain rfl := pure_eq_ok.mp h
    exact hp ▸ .leave
  next hp =>
    obtain rfl := pure_eq_ok.mp h
    exact hp ▸ .read
  next hp =>
    obtain rfl := pure_eq_ok.mp h
    exact hp ▸ .notify
  next hp =>
    obtain rfl := pure_eq_ok.mp h
    exact hp ▸ .setState
  next hp =>
    obtain rfl := pure_eq_ok.mp h
    exact hp ▸ .setRc
  next rc hp =>
    rw [hp]
    unfold threadWakeup at h
    split at h
    next hempty =>
      obtain rfl := pure_eq_ok.mp h
      exact .woken hempty
    next hqueue =>
      obtain ⟨-, -, heq⟩ := bind_eq_ok.mp h
      obtain rfl := pure_eq_ok.mp heq
      exact .wake hqueue
  next hp =>
    obtain rfl := pure_eq_ok.mp h
    exact hp ▸ .notified

/-! ## The invariant -/

/-- What holds where a thread is. -/
def Outline (s : State T) : Pc → Prop
  | .wait .sleep => s.req.state = .pending
  | .wait .leave | .wait .read => s.notified ≠ none
  | .notify .begin _ | .notify .setState _ =>
      s.called = true ∧ s.notified = none ∧ s.req.state = .pending
  | .notify .setRc _ => s.called = true ∧ s.notified = none ∧ s.req.state = .finished
  | .notify .wakeup rc =>
      s.called = true ∧ s.notified = none ∧ s.req.state = .finished ∧ s.req.rc = rc
  | .notify .leave rc =>
      s.called = true ∧ s.notified = none ∧ s.req.state = .finished ∧ s.req.rc = rc ∧
        s.waitqueue = []
  | _ => True

/-- In every state that the threads come to. -/
structure Coherent (s : State T) : Prop where
  atomic : Exclusive Pc.Atomic s.pc s.atomic
  outline : ∀ t, s.Outline (s.pc t)
  asleep : ∀ t ∈ s.waitqueue, s.pc t = .wait .asleep
  uncalled : s.called = false → s.req.state = .pending ∧ s.notified = none
  notifier : ∀ t u, (s.pc t).Notifies → (s.pc u).Notifies → t = u
  finished : s.req.state = .finished →
    s.notified ≠ none ∨ ∃ t, (s.pc t).Notifies ∧ (s.pc t).Atomic
  notified : ∀ rc, s.notified = some rc →
    s.called = true ∧ s.req.state = .finished ∧ s.req.rc = rc ∧ s.waitqueue = []
  returned : ∀ p ∈ s.returned, s.notified = some p.2

omit [DecidableEq T] in
theorem Initial.coherent (h : s.Initial) : Coherent s where
  atomic t := by
    simp [h.idle t, h.atomic, Pc.Atomic]
  outline t := by
    rw [h.idle t]
    trivial
  asleep t ht := by
    rw [h.waitqueue] at ht
    cases ht
  uncalled _ := ⟨h.pending, h.notified⟩
  notifier t u ht := by
    rw [h.idle t] at ht
    exact ht.elim
  finished hstate := by
    rw [h.pending] at hstate
    cases hstate
  notified rc hrc := by
    rw [h.notified] at hrc
    cases hrc
  returned p hp := by
    rw [h.returned] at hp
    cases hp

/-! ### One access -/

section Access

variable {p : Pc}

theorem Access.pc_eq (h : s.Access t p s') :
    ∃ q, s'.pc = Function.update s.pc t q ∧ s'.atomic = ownerAt Pc.Atomic t q := by
  cases h <;> exact ⟨_, rfl, rfl⟩

theorem Access.pc_of_ne (h : s.Access t p s') (hut : u ≠ t) : s'.pc u = s.pc u := by
  obtain ⟨q, hpc, -⟩ := h.pc_eq
  rw [hpc, Function.update_of_ne hut]

theorem Access.called_of_called (h : s.Access t p s') (hcalled : s.called = true) :
    s'.called = true := by
  cases h with
  | call => rfl
  | _ => exact hcalled

theorem Access.notified_ne (h : s.Access t p s') (hn : s.notified ≠ none) : s'.notified ≠ none := by
  cases h with
  | notified => simp
  | _ => exact hn

/-- An access in `blockdev_wait_for_completion` changes neither the request nor the history of the
notification. -/
theorem Access.of_not_notifies (h : s.Access t p s') (hp : ¬p.Notifies) :
    s'.req = s.req ∧ s'.notified = s.notified := by
  cases h with
  | notify | setState | setRc | wake | woken | notified => exact absurd trivial hp
  | _ => exact ⟨rfl, rfl⟩

/-- A thread comes to the notification by the one call of it. -/
theorem Access.notifies (h : s.Access t p s') (hn : (s'.pc t).Notifies) :
    p.Notifies ∨ s.called = false := by
  cases h with
  | notify | setState | setRc | wake | woken | notified => exact .inl trivial
  | call hcalled => exact .inr hcalled
  | _ => simp [goto, Pc.Notifies] at hn

/-- What an access does to the wait queue. -/
theorem Access.waitqueue_cases (h : s.Access t p s') :
    (p = .wait .sleep ∧ s'.pc t = .wait .asleep ∧ s'.waitqueue = s.waitqueue ++ [t]) ∨
      s'.waitqueue = s.waitqueue ∨ (p.Notifies ∧ s'.waitqueue = s.waitqueue.tail) := by
  cases h with
  | sleep => exact .inl ⟨rfl, Function.update_self .., rfl⟩
  | wake hqueue => exact .inr (.inr ⟨trivial, by rw [hqueue]; rfl⟩)
  | _ => exact .inr (.inl rfl)

/-- In `blockdev_notify_complete` interrupts stay disabled up to its end. -/
theorem Access.finished_of_notifies (h : s.Access t p s') (hp : p.Notifies) :
    s'.notified ≠ none ∨ ∃ u, (s'.pc u).Notifies ∧ (s'.pc u).Atomic := by
  cases h with
  | notify | setState | setRc | wake | woken =>
    exact .inr ⟨t, by simp [goto, Pc.Notifies], by simp [goto, Pc.Atomic]⟩
  | notified => exact .inl (by simp)
  | _ => exact hp.elim

/-- Its end. -/
theorem Access.notified_of_notifies (h : s.Access t p s') (hpre : s.Outline p) (hp : p.Notifies)
    (hrc : s'.notified = some rc) :
    s'.called = true ∧ s'.req.state = .finished ∧ s'.req.rc = rc ∧ s'.waitqueue = [] := by
  cases h with
  | notified =>
    obtain ⟨hcalled, -, hstate, hcode, hqueue⟩ := hpre
    exact ⟨hcalled, hstate, hcode.trans (Option.some.inj hrc), hqueue⟩
  | notify | setState | setRc | wake | woken => exact absurd (hpre.2.1.symm.trans hrc) (by simp)
  | _ => exact hp.elim

theorem Access.returned_cases (h : s.Access t p s') :
    s'.returned = s.returned ∨
      (p = .wait .read ∧ s'.returned = (t, s.req.rc) :: s.returned) := by
  cases h with
  | read => exact .inr ⟨rfl, rfl⟩
  | _ => exact .inl rfl

omit [DecidableEq T] in
theorem Outline.of_notifies (h : s.Outline p) (hp : p.Notifies) :
    s.called = true ∧ s.notified = none := by
  rcases p with _ | _ | ⟨q, rc⟩
  · exact hp.elim
  · exact hp.elim
  · cases q with
    | begin | setState | setRc | wakeup | leave => exact ⟨h.1, h.2.1⟩

/-- The access of a thread leads to what holds behind it. -/
theorem Access.outline_self (h : s.Access t p s') (hs : s.Coherent) (hp : s.pc t = p) :
    s'.Outline (s'.pc t) := by
  have hpre : s.Outline p := hp ▸ hs.outline t
  have hpc : ∀ q, (s.goto t q).pc t = q := fun q => Function.update_self ..
  cases h with
  | pending hstate =>
    rw [hpc]
    exact hstate
  | finished hstate =>
    rw [hpc]
    -- nobody else is in an atomic section
    rcases hs.finished hstate with hn | ⟨u, hu, hatomic⟩
    · exact hn
    · have htest : (s.pc t).Atomic := by
        rw [hp]
        exact .inl rfl
      rw [hs.atomic.eq hatomic htest, hp] at hu
      exact hu.elim
  | leave | notify =>
    rw [hpc]
    exact hpre
  | setState =>
    show State.Outline _ ((s.goto t _).pc t)
    rw [hpc]
    exact ⟨hpre.1, hpre.2.1, rfl⟩
  | setRc =>
    show State.Outline _ ((s.goto t _).pc t)
    rw [hpc]
    exact ⟨hpre.1, hpre.2.1, hpre.2.2, rfl⟩
  | wake =>
    show State.Outline _ ((s.goto t _).pc t)
    rw [hpc]
    exact hpre
  | woken hqueue =>
    rw [hpc]
    obtain ⟨hcalled, hnone, hstate, hrc⟩ := hpre
    exact ⟨hcalled, hnone, hstate, hrc, hqueue⟩
  | call hcalled =>
    show State.Outline _ ((s.goto t _).pc t)
    rw [hpc]
    obtain ⟨hstate, hnone⟩ := hs.uncalled hcalled
    exact ⟨rfl, hnone, hstate⟩
  | wait | begin | awake =>
    rw [hpc]
    trivial
  | sleep | read | notified =>
    show State.Outline _ ((s.goto t _).pc t)
    rw [hpc]
    trivial

/-- What holds where another thread is goes on to hold. -/
theorem Access.outline_other (h : s.Access t p s') (hs : s.Coherent) (hp : s.pc t = p)
    (hready : Ready t s.atomic) (hut : u ≠ t) : s'.Outline (s.pc u) := by
  have hpre := hs.outline u
  have hout := hs.atomic.not_in hready hut
  have hone := hs.notifier u t
  rw [hp] at hone
  rcases hpu : s.pc u with _ | q | ⟨q, rc⟩ <;> rw [hpu] at hpre hout hone
  · trivial
  · -- it is not in an atomic section
    cases q with
    | begin | test | asleep => trivial
    | sleep => exact absurd (.inr (.inl rfl)) hout
    | leave => exact absurd (.inr (.inr rfl)) hout
    | read => exact h.notified_ne hpre
  · have hn : ¬p.Notifies := fun hn => hut (hone trivial hn)
    obtain ⟨hreq, hnotified⟩ := h.of_not_notifies hn
    cases q with
    | begin =>
      obtain ⟨hcalled, hnone, hstate⟩ := hpre
      exact ⟨h.called_of_called hcalled, hnotified.trans hnone, hreq ▸ hstate⟩
    | setState | setRc | wakeup | leave => exact absurd (by simp [Pc.Atomic]) hout

/-- Who is in the notification has been there before, or it has been called. -/
theorem Access.notifies_cases (h : s.Access t p s') (hs : s.Coherent) (hp : s.pc t = p) :
    (∀ u, (s'.pc u).Notifies → (s.pc u).Notifies) ∨ ∀ u, (s'.pc u).Notifies → u = t := by
  have hself := h.notifies
  by_cases hcalled : s.called = false
  · right
    intro u hu
    by_contra hut
    rw [h.pc_of_ne hut] at hu
    have hpre := (hs.outline u).of_notifies hu
    simp [hcalled] at hpre
  · left
    intro u hu
    by_cases hut : u = t
    · subst hut
      exact hp ▸ (hself hu).resolve_right hcalled
    · rwa [h.pc_of_ne hut] at hu

/-- An access keeps the invariant. -/
theorem Access.coherent (h : s.Access t p s') (hs : s.Coherent) (hp : s.pc t = p)
    (hready : Ready t s.atomic) (ht : t ∉ s.waitqueue) : Coherent s' where
  atomic := by
    obtain ⟨q, hpc, hatomic⟩ := h.pc_eq
    rw [hpc, hatomic]
    exact hs.atomic.update hready q
  outline u := by
    by_cases hut : u = t
    · rw [hut]
      exact h.outline_self hs hp
    · rw [h.pc_of_ne hut]
      exact h.outline_other hs hp hready hut
  asleep u hu := by
    have hold : u ∈ s.waitqueue → s'.pc u = .wait .asleep := fun hmem => by
      rw [h.pc_of_ne fun hut => ht (hut ▸ hmem)]
      exact hs.asleep u hmem
    rcases h.waitqueue_cases with ⟨-, hasleep, hqueue⟩ | hqueue | ⟨-, hqueue⟩ <;> rw [hqueue] at hu
    · rcases List.mem_append.mp hu with hmem | hmem
      · exact hold hmem
      · rwa [List.mem_singleton.mp hmem]
    · exact hold hu
    · exact hold (List.mem_of_mem_tail hu)
  uncalled hcalled := by
    have hcalled : s.called = false := by
      rw [Bool.eq_false_iff]
      exact fun htrue => by simp [h.called_of_called htrue] at hcalled
    have hn : ¬p.Notifies := fun hn => by
      have hpre := (hp ▸ hs.outline t : s.Outline p).of_notifies hn
      simp [hcalled] at hpre
    obtain ⟨hreq, hnotified⟩ := h.of_not_notifies hn
    rw [hreq, hnotified]
    exact hs.uncalled hcalled
  notifier u v hu hv := by
    -- there is one call of the notification
    rcases h.notifies_cases hs hp with hback | hnew
    · exact hs.notifier u v (hback u hu) (hback v hv)
    · rw [hnew u hu, hnew v hv]
  finished hstate := by
    by_cases hn : p.Notifies
    · exact h.finished_of_notifies hn
    · have hreq := (h.of_not_notifies hn).1
      rw [hreq] at hstate
      rcases hs.finished hstate with hsome | ⟨u, hu, hatomic⟩
      · exact .inl (h.notified_ne hsome)
      · -- the thread that notifies is in its atomic section, and nobody else comes
        have hut : u ≠ t := by
          rintro rfl
          exact hn (hp ▸ hu)
        exact absurd hatomic (hs.atomic.not_in hready hut)
  notified rc hrc := by
    have hpre : s.Outline p := hp ▸ hs.outline t
    by_cases hn : p.Notifies
    · exact h.notified_of_notifies hpre hn hrc
    · obtain ⟨hreq, hnotified⟩ := h.of_not_notifies hn
      rw [hnotified] at hrc
      obtain ⟨hcalled, hstate, hcode, hqueue⟩ := hs.notified rc hrc
      refine ⟨h.called_of_called hcalled, hreq ▸ hstate, hreq ▸ hcode, ?_⟩
      rcases h.waitqueue_cases with ⟨rfl, -⟩ | hsame | ⟨hn', -⟩
      · -- a thread goes to sleep for a pending request only
        have hpending : s.req.state = .pending := hpre
        rw [hpending] at hstate
        cases hstate
      · rw [hsame, hqueue]
      · exact absurd hn' hn
  returned q hq := by
    have hpre : s.Outline p := hp ▸ hs.outline t
    rcases h.returned_cases with hsame | ⟨rfl, hnew⟩
    · rw [hsame] at hq
      have hsome := hs.returned q hq
      rw [← hsome]
      refine (h.of_not_notifies fun hn => ?_).2
      simp [(hpre.of_notifies hn).2] at hsome
    · obtain ⟨rc, hrc⟩ := Option.ne_none_iff_exists'.mp hpre
      rw [hnew] at hq
      rw [(h.of_not_notifies id).2]
      rcases List.mem_cons.mp hq with rfl | hold
      · rw [hrc, (hs.notified rc hrc).2.2.1]
      · exact hs.returned q hold

end Access

/-! ### Runs -/

section Runs

open TransitionSystem

variable {e : Event T} {p : WaitPoint}

/-- A step is a call or an access of a thread that can run. -/
theorem Step.access (h : Step s e s') :
    s.Access e.thread (s.pc e.thread) s' ∧ Ready e.thread s.atomic ∧
      (s.pc e.thread = .idle ∨ e = .resume e.thread ∧ e.thread ∉ s.waitqueue) := by
  obtain ⟨hen, hexec⟩ := h
  cases e with
  | waitForCompletion t =>
    obtain rfl := pure_eq_ok.mp hexec
    exact ⟨hen.2 ▸ .wait, hen.1, .inl hen.2⟩
  | notifyComplete t rc =>
    obtain rfl := pure_eq_ok.mp hexec
    exact ⟨hen.2.1 ▸ .call hen.2.2, hen.1, .inl hen.2.1⟩
  | resume t =>
    exact ⟨.of_resume hexec hen.2.1 hen.2.2, hen.1, .inr ⟨rfl, hen.2.2⟩⟩

theorem Coherent.step (hs : s.Coherent) (h : Step s e s') : s'.Coherent := by
  obtain ⟨haccess, hready, hcome⟩ := h.access
  refine haccess.coherent hs rfl hready ?_
  rcases hcome with hidle | ⟨-, hawake⟩
  · intro hmem
    have hasleep := hs.asleep _ hmem
    rw [hidle] at hasleep
    cases hasleep
  · exact hawake

/-- No assertion fails. -/
theorem Coherent.resume_ok (hs : s.Coherent) (t : T) : ∃ s', s.resume t = .ok s' := by
  have hatomic := (hs.atomic t).mp
  unfold resume
  rcases hp : s.pc t with _ | q | ⟨q, rc⟩ <;> rw [hp] at hatomic
  · exact ⟨_, rfl⟩
  · cases q with
    | test =>
      dsimp only
      split <;> exact ⟨_, rfl⟩
    | sleep => exact ⟨_, by rw [require, if_pos (hatomic (.inr (.inl rfl)))]; rfl⟩
    | _ => exact ⟨_, rfl⟩
  · cases q with
    | wakeup =>
      dsimp only
      unfold threadWakeup
      split
      · exact ⟨_, rfl⟩
      · exact ⟨_, by rw [require, if_pos (hatomic (by simp [Pc.Atomic]))]; rfl⟩
    | _ => exact ⟨_, rfl⟩

/-- The code of the notification is there to stay. -/
theorem Coherent.notified_step (hs : s.Coherent) (h : Step s e s') (hn : s.notified = some rc) :
    s'.notified = some rc := by
  have hquiet : ¬(s.pc e.thread).Notifies := fun hnotifies => by
    have hpre := (hs.outline e.thread).of_notifies hnotifies
    simp [hn] at hpre
  exact (h.access.1.of_not_notifies hquiet).2.trans hn

/-- Behind the notification a thread goes on to its return. -/
theorem Access.goes_on {q : Pc} (h : s.Access t q s') (hq : q = .wait p) (hs : s.Coherent)
    (hn : s.notified = some rc) (hpre : s.Outline q) :
    (p.left = 1 ∧ (t, rc) ∈ s'.returned) ∨
      ∃ p', s'.pc t = .wait p' ∧ p'.left + 1 = p.left := by
  obtain ⟨-, hstate, hcode, -⟩ := hs.notified rc hn
  -- a finished request lets the thread through the loop
  cases h <;> cases hq
  case pending hpending => simp [hpending] at hstate
  case sleep =>
    have hpending : s.req.state = .pending := hpre
    simp [hpending] at hstate
  case read => exact .inl ⟨rfl, by simp [hcode]⟩
  all_goals exact .inr ⟨_, Function.update_self .., rfl⟩

theorem Step.returned_of_returned (h : Step s e s') {x : T × ℤ} (hx : x ∈ s.returned) :
    x ∈ s'.returned := by
  rcases h.access.1.returned_cases with hsame | ⟨-, hnew⟩
  · exact hsame ▸ hx
  · exact hnew ▸ List.mem_cons_of_mem _ hx

/-- A thread that waits has returned when it has gone on often enough. -/
theorem Coherent.returned_of_run (hs : s.Coherent) (hn : s.notified = some rc)
    (hp : s.pc t = .wait p) {tr : List (State T × Event T)} (h : Run Step s tr s')
    (hcount : p.left ≤ (tr.map Prod.snd).count (.resume t)) : (t, rc) ∈ s'.returned := by
  -- on the way: it has returned, or what is left has become less
  have hway : s'.Coherent ∧ s'.notified = some rc ∧ ((t, rc) ∈ s'.returned ∨
      ∃ p', s'.pc t = .wait p' ∧ p'.left + (tr.map Prod.snd).count (.resume t) = p.left) := by
    clear hcount
    induction h with
    | nil => exact ⟨hs, hn, .inr ⟨p, hp, rfl⟩⟩
    | @snoc s₁ s₂ tr e _ hstep ih =>
      obtain ⟨hs₁, hn₁, hway⟩ := ih
      refine ⟨hs₁.step hstep, hs₁.notified_step hstep hn₁, ?_⟩
      rcases hway with hmem | ⟨p₁, hp₁, hleft⟩
      · exact .inl (hstep.returned_of_returned hmem)
      obtain ⟨haccess, -, hcome⟩ := hstep.access
      rw [List.map_append, List.count_append]
      by_cases het : e.thread = t
      · rw [het] at haccess hcome
        obtain ⟨rfl, -⟩ := hcome.resolve_left (by simp [hp₁])
        rcases haccess.goes_on hp₁ hs₁ hn₁ (hs₁.outline t) with ⟨-, hmem⟩ | ⟨p₂, hp₂, hless⟩
        · exact .inl hmem
        · refine .inr ⟨p₂, hp₂, ?_⟩
          simp only [List.map_cons, List.map_nil, List.count_singleton_self]
          omega
      · refine .inr ⟨p₁, (haccess.pc_of_ne (Ne.symm het)).trans hp₁, ?_⟩
        have hne : e ≠ .resume t := fun heq => het (heq ▸ rfl)
        simp only [List.map_cons, List.map_nil, List.count_singleton, beq_iff_eq, hne, if_false]
        omega
  obtain ⟨-, -, hmem | ⟨p', -, hleft⟩⟩ := hway
  · exact hmem
  · have hpos : 0 < p'.left := by
      cases p' <;> decide
    omega

/-- The request serves its threads. -/
structure Completes (s : State T) : Prop where
  /-- Behind the notification no thread sleeps. -/
  awake : s.notified ≠ none → s.waitqueue = []
  /-- A thread that has returned has done so behind the notification, and with its code. -/
  returned : ∀ t rc, (t, rc) ∈ s.returned → s.notified = some rc
  /-- Behind the notification no thread waits for anything but the processor. -/
  ready : s.notified ≠ none → ∀ t p, s.pc t = .wait p → Ready t s.atomic →
    ∃ s', Step s (.resume t) s'
  /-- It returns with the code of the notification when it has had the processor often enough. -/
  returns : ∀ t p rc, s.notified = some rc → s.pc t = .wait p → ∀ tr s', Run Step s tr s' →
    p.left ≤ (tr.map Prod.snd).count (.resume t) → (t, rc) ∈ s'.returned

theorem Coherent.completes (hs : s.Coherent) : s.Completes where
  awake hn := by
    obtain ⟨rc, hrc⟩ := Option.ne_none_iff_exists'.mp hn
    exact (hs.notified rc hrc).2.2.2
  returned t rc hmem := hs.returned (t, rc) hmem
  ready hn t p hp hready := by
    obtain ⟨rc, hrc⟩ := Option.ne_none_iff_exists'.mp hn
    obtain ⟨s', hs'⟩ := hs.resume_ok t
    refine ⟨s', ⟨hready, by simp [hp], ?_⟩, hs'⟩
    rw [(hs.notified rc hrc).2.2.2]
    exact List.not_mem_nil
  returns t p rc hn hp tr s' hrun hcount := hs.returned_of_run hn hp hrun hcount

/-- Whatever the threads do and in whatever order they come, the request serves them. -/
theorem completes_of_run {s₀ : State T} {tr : List (State T × Event T)} (h₀ : s₀.Initial)
    (h : Run Step s₀ tr s) : s.Completes := by
  have hs : s.Coherent := h.invariant h₀.coherent fun s e s' hs hstep => Coherent.step hs hstep
  exact hs.completes

/-- A request of which nothing has happened yet. -/
def posted : State Bool where
  req := ⟨0, 1, 0, .read, .pending, 0, some 0⟩
  waitqueue := []
  pc _ := .idle
  atomic := none
  called := false
  notified := none
  returned := []

/-- One thread goes to sleep, the other one notifies the request, and the first one returns. -/
def sleepAndWake : List (Event Bool) :=
  [.waitForCompletion false, .resume false, .resume false, .resume false, .notifyComplete true 5,
    .resume true, .resume true, .resume true, .resume true, .resume true, .resume true,
    .resume false, .resume false, .resume false, .resume false]

theorem posted_initial : posted.Initial := ⟨rfl, rfl, fun _ => rfl, rfl, rfl, rfl, rfl⟩

theorem completes_sleepAndWake :
    (after Enabled exec posted sleepAndWake).returned = [(false, 5)] ∧
      (after Enabled exec posted sleepAndWake).Completes := by
  have hruns : (runs Enabled exec posted sleepAndWake).isSome := by
    decide
  obtain ⟨tr, hr⟩ := run_after hruns
  exact ⟨by decide, completes_of_run posted_initial hr⟩

end Runs

end State

end GeekOS.Blockdev.Completion
