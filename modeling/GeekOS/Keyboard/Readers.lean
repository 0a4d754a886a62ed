import GeekOS.Kernel.FiveStates
import GeekOS.Keyboard.Buffer

/-!
# The readers of the key buffer

`read_key` and `wait_for_key` in any threads, interleaved with the interrupts of the keyboard. A
thread sleeps in `wait_for_key` on the queue that the workqueue thread sleeps on too.

* `KeyControl`: a thread sleeps in `wait_for_key` while there is no key only;
* `reachable_abs`: the kernel with the ring reaches no state that the machine does not reach;
* `fifo_of_run`: the key buffer is a first-in-first-out queue of at most 255 codes.
-/

namespace GeekOS.Keyboard

open Result TransitionSystem

/-! ## Who sleeps -/

/-- The thread is in `wait_for_key`, and nothing else remains for it to do. -/
structure KeyControl (m : Machine) : Prop where
  single : ∀ t b, .keyboard (.waitForKey b) ∈ m.acts t → m.acts t = [.keyboard (.waitForKey b)]
  asleep : ∀ t q b, t ∈ m.kernel.sched.queue (.wait q) → .keyboard (.waitForKey b) ∈ m.acts t →
    q = .work ∧ m.kernel.keyQueue = []

section Control

variable {m m' : Machine} {e : Event} {memory : Memory} {k k' : Kernel} {a : Act} {acts : List Act}

/-- Only `wait_for_key` goes on with its own loop. -/
theorem eq_waitForKey_of_mem {b : Bool} (h : a.run memory k = .ok (acts, k'))
    (hb : .keyboard (.waitForKey b) ∈ acts) :
    acts = [.keyboard (.waitForKey b)] ∧ ∃ slept, a = .keyboard (.waitForKey slept) := by
  have hfollows := Act.run_follows h
  -- what follows an act is listed, and `wait_for_key` is in one list only
  cases hfollows.leadsTo hb with
  | @waitForKey slept =>
    refine ⟨?_, slept, rfl⟩
    rcases hfollows with rfl | rfl
    · rfl
    · simp at hb

/-- No act adds to the key buffer. -/
theorem keyQueue_of_run (h : a.run memory k = .ok (acts, k')) (hempty : k.keyQueue = []) :
    k'.keyQueue = [] := by
  by_cases ha : ∃ b, a = .keyboard b
  · obtain ⟨b, rfl⟩ := ha
    cases KeyboardAct.run_step h with
    | readKey => simp [hempty]
    | waitForKeyAsleep => exact hempty
    | waitForKey hkey => simp [hempty] at hkey
  · -- the others do not touch it
    have hsame : a.run memory k = outcomeWithKeys k.keyQueue (a.run memory k) :=
      act_withKeys (q := k.keyQueue) fun b hb => ha ⟨b, hb⟩
    rw [h] at hsame
    obtain ⟨-, hk⟩ := Prod.mk.inj (Except.ok.inj hsame)
    rw [hk]
    exact hempty

/-- The interrupt of the keyboard wakes everybody who sleeps on the queue, or it brings no key. -/
theorem queue_work_of_keyboard {keycode : Option Keycode}
    (h : m.exec (.keyboard keycode) = .ok m') :
    m'.kernel.sched.queue (.wait .work) = [] ∨ m'.kernel.keyQueue = m.kernel.keyQueue := by
  simp only [Machine.exec, bind_eq_ok, pure_eq_ok] at h
  obtain ⟨k, hk, s₂, h₂, rfl⟩ := h
  rcases Machine.keyboardIntHandler_eq_ok.mp hk with ⟨-, rfl⟩ | ⟨c, s₁, -, h₁, rfl⟩
  · exact .inr rfl
  · have hempty := (threadWakeup_rule (I := fun _ => True) (fun _ _ _ _ => trivial) trivial h₁).2
    exact .inl ((intHandleReturn_queue_wait h₂ .work).trans hempty)

namespace KeyControl

theorem single_step (h : KeyControl m) (hs : m.Step e m') {t : ThreadId} {b : Bool}
    (hb : .keyboard (.waitForKey b) ∈ m'.acts t) : m'.acts t = [.keyboard (.waitForKey b)] := by
  by_cases ht : t = m.current
  · subst ht
    rcases Machine.step_cases hs with ⟨-, hacts⟩ | ⟨a, rfl, -, -, rfl⟩ |
      ⟨memory, a, rest, acts, k', rfl, hacts, hk, rfl⟩
    · rw [hacts] at hb ⊢
      exact h.single _ _ hb
    · -- who makes a call had nothing left to do
      simp only [Function.update_self, List.mem_singleton] at hb ⊢
      rw [hb]
    · simp only [Function.update_self] at hb ⊢
      rcases List.mem_append.mp hb with hb | hb
      · obtain ⟨rfl, slept, rfl⟩ := eq_waitForKey_of_mem hk hb
        -- nothing stood behind the loop
        have hrest := h.single m.current slept (hacts ▸ List.mem_cons_self)
        obtain rfl : rest = [] := by simpa [hacts] using hrest
        rfl
      · have hall := h.single m.current b (hacts ▸ List.mem_cons_of_mem _ hb)
        obtain ⟨-, rfl⟩ := by simpa [hacts] using hall
        simp at hb
  · rw [Machine.exec_acts_of_ne hs.2 ht] at hb ⊢
    exact h.single t b hb

theorem asleep_step (h : KeyControl m) (hp : Placed [m.current] m.kernel.sched)
    (hs : m.Step e m') {t : ThreadId} {q : WaitQueue} {b : Bool}
    (ht : t ∈ m'.kernel.sched.queue (.wait q)) (hb : .keyboard (.waitForKey b) ∈ m'.acts t) :
    q = .work ∧ m'.kernel.keyQueue = [] := by
  -- a thread that has slept before the step is not the current one
  have hold : t ∈ m.kernel.sched.queue (.wait q) → q = .work ∧ m.kernel.keyQueue = [] := by
    intro ht
    have hne : t ≠ m.current := by
      rintro rfl
      exact hp.outside _ (List.mem_singleton_self _) _ ht
    exact h.asleep t q b ht (by rwa [Machine.exec_acts_of_ne hs.2 hne] at hb)
  have hsleeps := (Machine.exec_moves hs.2).mem_wait ht
  rcases Machine.step_cases hs with ⟨he, hacts⟩ | ⟨a, rfl, hnil, hcall, rfl⟩ |
    ⟨memory, a, rest, acts, k', rfl, hacts, hk, rfl⟩
  · cases e with
    | timer =>
      -- the timer leaves the keys alone
      obtain ⟨hq, hempty⟩ := hold (hsleeps.resolve_right (by simp [Machine.Allows]))
      obtain ⟨s₁, -, h₂⟩ := bind_eq_ok.mp hs.2
      obtain ⟨s₂, -, h₃⟩ := bind_eq_ok.mp h₂
      obtain rfl := pure_eq_ok.mp h₃
      exact ⟨hq, hempty⟩
    | keyboard keycode =>
      obtain ⟨rfl, hempty⟩ := hold (hsleeps.resolve_right (by simp [Machine.Allows]))
      rcases queue_work_of_keyboard hs.2 with hawake | hkeys
      · -- whoever slept there has been woken
        rw [hawake] at ht
        simp at ht
      · exact ⟨rfl, hkeys.trans hempty⟩
    | call | resume => exact he.elim
  · exact hold ht
  · rcases hsleeps with ht | hblock
    · obtain ⟨hq, hempty⟩ := hold ht
      exact ⟨hq, keyQueue_of_run hk hempty⟩
    · -- the current thread goes to sleep, in the loop of `wait_for_key`
      obtain ⟨a', rest', hacts', rfl, hsleep⟩ := hblock
      obtain ⟨rfl, rfl⟩ := List.cons.inj (hacts.symm.trans hacts')
      simp only [Function.update_self, List.mem_append] at hb
      have ha : ∃ slept, a = .keyboard (.waitForKey slept) := by
        rcases hb with hb | hb
        · exact (eq_waitForKey_of_mem hk hb).2
        · have hall := h.single m.current b (hacts ▸ List.mem_cons_of_mem _ hb)
          obtain ⟨rfl, -⟩ := by simpa [hacts] using hall
          exact ⟨b, rfl⟩
      obtain ⟨slept, rfl⟩ := ha
      simp only [Act.sleepsOn] at hsleep
      split at hsleep
      -- it has found the buffer empty, with interrupts disabled since
      next hempty => exact ⟨(Option.some.inj hsleep).symm, keyQueue_of_run hk hempty⟩
      next => simp at hsleep

theorem step (h : KeyControl m) (hp : Placed [m.current] m.kernel.sched) (hs : m.Step e m') :
    KeyControl m' where
  single _ _ := h.single_step hs
  asleep _ _ _ := h.asleep_step hp hs

end KeyControl

end Control

theorem keyControl_boot : KeyControl boot where
  single t b hb := by rcases mem_boot_acts hb with hb | hb <;> simp at hb
  asleep t q b _ hb := by rcases mem_boot_acts hb with hb | hb <;> simp at hb

theorem reachable_keyControl {m : Machine} (h : Reachable Machine.Step boot m) : KeyControl m := by
  have hI := h.invariant (I := fun m => Reachable Machine.Step boot m ∧ KeyControl m)
    ⟨.refl _, keyControl_boot⟩
    fun m e m' hI hs => ⟨hI.1.tail hs, hI.2.step (reachable_placed hI.1) hs⟩
  exact hI.2

/-! ## The kernel with the ring -/

namespace State

/-- The thread is asleep inside of `wait_for_key`. -/
def AsleepForKey (s : State) (t : ThreadId) : Prop :=
  (∃ q, t ∈ s.machine.kernel.sched.queue (.wait q)) ∧
    ∃ b, .keyboard (.waitForKey b) ∈ s.machine.acts t

variable {s s' : State} {e : Event}

/-- The code that the event adds to the buffer. -/
def accepts (s : State) : Event → List Keycode
  | .keyboard (some keycode) => if isQueueFull s.buffer then [] else [keycode]
  | _ => []

/-- The act of `keyboard.c` that the event carries out, if any. -/
def reads (s : State) : Event → Option KeyboardAct
  | .resume _ =>
      match s.machine.acts s.machine.current with
      | .keyboard a :: _ => some a
      | _ => none
  | _ => none

/-- The keys given to threads and the keys that wait. -/
def keys (s : State) : List Keycode := s.delivered.map Prod.snd ++ s.buffer.contents

theorem exec_eq_ok (h : s.exec e = .ok s') : s.abs.exec e = .ok s'.abs := by
  have habs := exec_abs s e
  rw [h] at habs
  cases hexec : s.abs.exec e with
  | error f =>
    rw [hexec] at habs
    simp [lift, Except.map, Except.mapError] at habs
  | ok m =>
    rw [hexec] at habs
    exact congrArg Except.ok (Except.ok.inj habs).symm

theorem exec_ne_queueEmpty (s : State) (e : Event) : s.exec e ≠ .error .queueEmpty := by
  intro h
  have habs := exec_abs s e
  rw [h] at habs
  cases hexec : s.abs.exec e <;> rw [hexec] at habs <;>
    simp [lift, Except.map, Except.mapError] at habs

/-- A reader takes the oldest key, if there is one. -/
theorem keyboardRun_keys {k k' : Kernel} {b b' : KeyBuffer} {a : KeyboardAct} {acts : List Act}
    {result : Option Keycode} (h : keyboardRun k b a = .ok (acts, k', b', result)) :
    b.contents = result.toList ++ b'.contents := by
  cases hb : b.contents with
  | nil =>
    have hempty : isQueueEmpty b = true := isQueueEmpty_iff.mpr hb
    cases a with
    | readKey =>
      simp only [keyboardRun, hempty] at h
      obtain ⟨-, -, rfl, rfl⟩ := by simpa using h
      exact hb.symm
    | waitForKey slept =>
      simp only [keyboardRun, hempty, Bool.not_true, Bool.false_eq_true, if_false, bind_eq_ok,
        pure_eq_ok, Prod.exists, Prod.mk.injEq] at h
      obtain ⟨_, _, -, -, -, rfl, rfl⟩ := h
      exact hb.symm
  | cons keycode rest =>
    obtain ⟨b₁, hrest, hrun⟩ := keyboardRun_of_cons k hb
    rw [hrun] at h
    obtain ⟨-, -, rfl, rfl⟩ := by simpa using h
    rw [hrest]
    rfl

/-- What the interrupt handler does to the keys. -/
theorem exec_keyboard {keycode : Option Keycode} (h : s.exec (.keyboard keycode) = .ok s') :
    s'.buffer = keycode.elim s.buffer (enqueue s.buffer) ∧ s'.delivered = s.delivered := by
  obtain ⟨s₁, h₁, h⟩ := bind_eq_ok.mp h
  obtain ⟨sched₂, -, h⟩ := bind_eq_ok.mp h
  obtain rfl := pure_eq_ok.mp h
  cases keycode with
  | none =>
    obtain rfl := pure_eq_ok.mp h₁
    exact ⟨rfl, rfl⟩
  | some keycode =>
    obtain ⟨sched₁, -, h₁⟩ := bind_eq_ok.mp h₁
    obtain rfl := pure_eq_ok.mp h₁
    exact ⟨rfl, rfl⟩

theorem eq_of_mem_accepts {keycode code : Keycode}
    (h : code ∈ s.accepts (.keyboard (some keycode))) :
    code = keycode := by
  unfold accepts at h
  split_ifs at h
  · simp at h
  · exact List.mem_singleton.mp h

/-- A step adds the code that is accepted behind the keys, and moves keys from the buffer to the
readers. -/
theorem exec_keys (h : s.exec e = .ok s') : s'.keys = s.keys ++ s.accepts e := by
  have hrest : ∀ e', (lift (s.machine.exec e') >>= fun machine => pure { s with machine }) =
      Except.ok s' → s'.keys = s.keys ++ [] := by
    intro e' h
    obtain ⟨machine, -, h⟩ := bind_eq_ok.mp h
    obtain rfl := pure_eq_ok.mp h
    simp [keys]
  cases e with
  | call a => exact hrest _ h
  | timer => exact hrest _ h
  | resume memory =>
    simp only [exec] at h
    split at h
    next a rest hacts =>
      obtain ⟨⟨acts, kernel, buffer, result⟩, hrun, h⟩ := bind_eq_ok.mp h
      obtain rfl := pure_eq_ok.mp h
      -- a key that a reader has got was the first one in the buffer
      simp only [keys, accepts, keyboardRun_keys hrun, List.append_nil, List.map_append,
        List.append_assoc]
      cases result <;> rfl
    next => exact hrest _ h
  | keyboard keycode =>
    obtain ⟨hbuffer, hdelivered⟩ := exec_keyboard h
    have hlt := s.buffer.length_lt
    rw [keys, hbuffer, hdelivered]
    cases keycode with
    | none => exact (List.append_nil _).symm
    | some keycode =>
      rw [accepts, Option.elim_some, enqueue_contents, RingBuffer.length_contents]
      by_cases hfull : isQueueFull s.buffer
      · have hlength := isQueueFull_iff.mp hfull
        rw [if_pos hfull, if_neg (by omega), List.append_nil]
        rfl
      · have hlength := mt isQueueFull_iff.mpr hfull
        rw [if_neg hfull, if_pos (by omega), ← List.append_assoc]
        rfl

theorem lift_eq_ok {α : Type} {x : Except Fault α} {a : α} :
    lift x = .ok a ↔ x = .ok a := by
  cases x <;> simp [lift, Except.mapError]

/-- What a reader does: it takes the oldest key and returns, or it returns without a key, or it goes
to sleep. -/
theorem exec_reads {a : KeyboardAct} (ha : s.reads e = some a) (h : s.exec e = .ok s') :
    (∀ keycode rest, s.buffer.contents = keycode :: rest →
      s'.delivered = s.delivered ++ [(s.machine.current, keycode)] ∧ s'.buffer.contents = rest ∧
        s'.machine.acts s.machine.current = (s.machine.acts s.machine.current).tail) ∧
    (s.buffer.contents = [] → s'.delivered = s.delivered ∧ s'.buffer = s.buffer ∧
      (a = .readKey →
        s'.machine.acts s.machine.current = (s.machine.acts s.machine.current).tail) ∧
      (a ≠ .readKey → s'.AsleepForKey s.machine.current)) := by
  cases e with
  | resume memory =>
    cases hacts : s.machine.acts s.machine.current with
    | nil => simp [reads, hacts] at ha
    | cons first rest =>
    cases first with
    | keyboard b =>
      obtain rfl : b = a := by simpa [reads, hacts] using ha
      simp only [exec, hacts] at h
      obtain ⟨⟨acts, kernel, buffer, result⟩, hrun, h⟩ := bind_eq_ok.mp h
      obtain rfl := pure_eq_ok.mp h
      constructor
      · -- both readers dequeue when the buffer is not empty
        intro keycode rest' hkeys
        obtain ⟨b', hrest, hb'⟩ := keyboardRun_of_cons s.machine.kernel hkeys
        rw [hb'] at hrun
        obtain ⟨rfl, rfl, rfl, rfl⟩ := by simpa using hrun
        exact ⟨rfl, hrest, by simp⟩
      · intro hkeys
        have hempty : isQueueEmpty s.buffer = true := isQueueEmpty_iff.mpr hkeys
        cases b with
        | readKey =>
          obtain ⟨rfl, rfl, rfl, rfl⟩ := by simpa [keyboardRun, hempty, pure_eq_ok] using hrun
          exact ⟨by simp, rfl, by simp, by simp⟩
        | waitForKey slept =>
          -- `thread_wait`, and the loop again
          simp only [keyboardRun, hempty, Bool.not_true, Bool.false_eq_true, if_false, bind_eq_ok,
            pure_eq_ok, Prod.exists, Prod.mk.injEq] at hrun
          obtain ⟨acts', k', hsleep, rfl, rfl, rfl, rfl⟩ := hrun
          obtain ⟨rfl, sched, hs, rfl⟩ := atomically_eq_ok.mp (lift_eq_ok.mp hsleep)
          refine ⟨by simp, rfl, by simp, fun _ => ⟨⟨.work, mem_queue_of_threadWait hs⟩, true, ?_⟩⟩
          simp
    | thread | work | synch | simulation => simp [reads, hacts] at ha
  | call | timer | keyboard => simp [reads] at ha

/-- Nobody else takes a key, and none comes but with an interrupt of the keyboard. -/
theorem exec_other (hreads : s.reads e = none) (he : ∀ keycode, e ≠ .keyboard (some keycode))
    (h : s.exec e = .ok s') : s'.buffer = s.buffer ∧ s'.delivered = s.delivered := by
  have hrest : ∀ e', (lift (s.machine.exec e') >>= fun machine => pure { s with machine }) =
      Except.ok s' → s'.buffer = s.buffer ∧ s'.delivered = s.delivered := by
    intro e' h
    obtain ⟨machine, -, h⟩ := bind_eq_ok.mp h
    obtain rfl := pure_eq_ok.mp h
    exact ⟨rfl, rfl⟩
  cases e with
  | call a => exact hrest _ h
  | timer => exact hrest _ h
  | resume memory =>
    simp only [exec] at h
    split at h
    next a rest hacts => simp [reads, hacts] at hreads
    next => exact hrest _ h
  | keyboard keycode =>
    cases keycode with
    | none => exact exec_keyboard h
    | some keycode => exact absurd rfl (he keycode)

end State

theorem initial_abs : State.initial.abs = boot := rfl

/-- The machine makes the same steps. -/
theorem reachable_abs {tr : List (State × Event)} {s : State}
    (h : Run State.Step State.initial tr s) : Reachable Machine.Step boot s.abs :=
  h.invariant (I := fun s => Reachable Machine.Step boot s.abs) (initial_abs ▸ .refl _)
    fun _ _ _ hI hs => hI.tail ⟨hs.1, State.exec_eq_ok hs.2⟩

/-- The codes that the keyboard has brought while there was space for them. -/
def accepted (tr : List (State × Event)) : List Keycode := tr.flatMap fun p => p.1.accepts p.2

theorem accepted_eq {tr : List (State × Event)} {s : State}
    (h : Run State.Step State.initial tr s) : accepted tr = s.keys := by
  induction h with
  | nil => rfl
  | snoc _ hs ih =>
    rw [accepted, List.flatMap_append, List.flatMap_singleton, State.exec_keys hs.2, ← ih]
    rfl

/-- Whatever the threads and the interrupts do: at most 255 key codes wait in the buffer. The codes
that the readers have got and those that wait are, in this order, the codes that were accepted.

* A code is accepted unless 255 codes wait, and stands behind them; otherwise the buffer stays as it
  is.
* A thread in `read_key` or `wait_for_key` gets the code that has waited longest, and returns. If
  none waits, `read_key` returns without one, and in `wait_for_key` the thread goes to sleep.
* No other step touches the buffer or gives a code to a thread.
* The assertion in `dequeue` does not fail, and no thread is asleep in `wait_for_key` while a code
  waits. -/
theorem fifo_of_run {tr : List (State × Event)} {s : State}
    (h : Run State.Step State.initial tr s) :
    s.buffer.contents.length ≤ 255 ∧
    s.delivered.map Prod.snd ++ s.buffer.contents = accepted tr ∧
    (∀ keycode s', s.Step (.keyboard (some keycode)) s' →
      s'.delivered = s.delivered ∧
      (s.buffer.contents.length < 255 → s.accepts (.keyboard (some keycode)) = [keycode] ∧
        s'.buffer.contents = s.buffer.contents ++ [keycode]) ∧
      (s.buffer.contents.length = 255 → s.accepts (.keyboard (some keycode)) = [] ∧
        s'.buffer = s.buffer)) ∧
    (∀ e a s', s.Step e s' → s.reads e = some a →
      (∀ keycode rest, s.buffer.contents = keycode :: rest →
        s'.delivered = s.delivered ++ [(s.machine.current, keycode)] ∧ s'.buffer.contents = rest ∧
          s'.machine.acts s.machine.current = (s.machine.acts s.machine.current).tail) ∧
      (s.buffer.contents = [] → s'.delivered = s.delivered ∧ s'.buffer = s.buffer ∧
        (a = .readKey →
          s'.machine.acts s.machine.current = (s.machine.acts s.machine.current).tail) ∧
        (a ≠ .readKey → s'.AsleepForKey s.machine.current))) ∧
    (∀ e s', s.Step e s' → s.reads e = none → (∀ keycode, e ≠ .keyboard (some keycode)) →
      s'.buffer = s.buffer ∧ s'.delivered = s.delivered) ∧
    (∀ e, s.exec e ≠ .error .queueEmpty) ∧
    (s.buffer.contents ≠ [] → ∀ t, ¬s.AsleepForKey t) := by
  have hlt := s.buffer.length_lt
  refine ⟨?_, (accepted_eq h).symm, fun keycode s' hs => ?_,
    fun e a s' hs ha => State.exec_reads ha hs.2,
    fun e s' hs hreads he => State.exec_other hreads he hs.2, s.exec_ne_queueEmpty, ?_⟩
  · rw [RingBuffer.length_contents]
    exact Nat.le_of_lt_succ hlt
  · obtain ⟨hbuffer, hdelivered⟩ := State.exec_keyboard hs.2
    rw [hbuffer, Option.elim_some, enqueue_contents, RingBuffer.length_contents, State.accepts]
    refine ⟨hdelivered, fun hspace => ?_, fun hlength => ?_⟩
    · have hlength : s.buffer.length + 1 < queueSize := Nat.succ_lt_succ hspace
      rw [if_neg (mt isQueueFull_iff.mp hlength.ne), if_pos hlength]
      exact ⟨rfl, rfl⟩
    · have hfull : isQueueFull s.buffer = true := isQueueFull_iff.mpr (by rw [hlength]; rfl)
      rw [if_pos hfull, enqueue, hfull]
      exact ⟨rfl, rfl⟩
  · -- the machine with the list has the same sleepers
    rintro hkeys t ⟨⟨q, ht⟩, b, hb⟩
    exact hkeys ((reachable_keyControl (reachable_abs h)).asleep t q b ht hb).2

/-- The thread of `geekos_main` goes to sleep in `wait_for_key`, and so does the workqueue thread.
The first key wakes them both, and the second one comes when the first one has been read. Then the
thread calls `read_key`, and the idle thread and the workqueue thread are dispatched before it goes
on. -/
def twoKeys : List Event :=
  Event.call (.keyboard (.waitForKey false)) :: Machine.resume 3 ++
    [.keyboard (some 97), .resume .available, .keyboard (some 98)] ++
    Machine.resume 2 ++ [.call (.keyboard .readKey)]

/-- The law above behind these events: `read_key` gives the thread the second key. -/
theorem fifo_twoKeys : ∃ tr s s', Run State.Step State.initial tr s ∧
    s.Step (.resume .available) s' ∧ s.reads (.resume .available) = some .readKey ∧
    s.delivered = [(0, 97)] ∧ accepted tr = [97, 98] ∧ s'.delivered = [(0, 97), (0, 98)] ∧
    ∀ t, ¬s.AsleepForKey t := by
  obtain ⟨tr, s, hr, hdelivered, hcontents, hcurrent, hreads, henabled, hok⟩ := exists_run
    (P := fun _ s => s.delivered = [(0, 97)] ∧ s.buffer.contents = [98] ∧
      s.machine.current = 0 ∧ s.reads (.resume .available) = some .readKey ∧
      s.machine.Enabled (.resume .available) ∧ (s.exec (.resume .available)).isOk)
    (show Option.any _
        (runs (fun s : State => s.machine.Enabled) State.exec State.initial twoKeys) = true by
      decide)
  obtain ⟨-, haccepted, -, hreader, -, -, hawake⟩ := fifo_of_run hr
  cases hs' : s.exec (.resume .available) with
  | error f => simp [hs', Except.isOk, Except.toBool] at hok
  | ok s' =>
    have hstep : s.Step (.resume .available) s' := ⟨henabled, hs'⟩
    obtain ⟨hgets, -⟩ := hreader _ _ _ hstep hreads
    refine ⟨tr, s, s', hr, hstep, hreads, hdelivered, ?_, ?_, hawake (by simp [hcontents])⟩
    · rw [← haccepted, hdelivered, hcontents]
      rfl
    · rw [(hgets 98 [] hcontents).1, hdelivered, hcurrent]
      rfl

end GeekOS.Keyboard
