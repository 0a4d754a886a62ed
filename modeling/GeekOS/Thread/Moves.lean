import Mathlib.Logic.Relation
import GeekOS.Thread.Operations

/-!
# The process model

What the operations of the thread module do to threads, as a system of its own: a thread is
made, admitted, dispatched, put to sleep, woken, ended, and its record is changed in a few named
ways. A configuration is the state of the module together with the thread that has the CPU,
which is none between the moment a thread has left and the dispatch of the next one.

Every operation of `thread.c` is a sequence of moves (`Moves`); the theorems `*_moves` name, for
each operation, the moves it may use beside those without a label. An invariant of the thread
module is therefore proved once for each move, whatever function makes it.
-/

namespace GeekOS

open Result

/-- The moves that more than one part of the kernel needs to know about. -/
inductive Label
  /-- The thread on the CPU joins the run queue. -/
  | ready (t : ThreadId)
  /-- The thread on the CPU goes to sleep. -/
  | block (t : ThreadId) (q : WaitQueue)
  /-- The first sleeper of a queue joins the run queue. -/
  | wake (q : WaitQueue)
  /-- The first new thread joins the run queue. -/
  | merge
  /-- A thread is made and joins the run queue. -/
  | spawn (t : ThreadId)
  /-- A thread is made and joins the new queue. -/
  | spawnNew (t : ThreadId)
  /-- A reference to the thread is dropped. -/
  | detach (t : ThreadId)
  /-- The thread on the CPU ends. -/
  | exit (t : ThreadId) (exitcode : ℤ)
  /-- The record gets its final priority. -/
  | prioritize (t : ThreadId)
  /-- An object goes back to the allocator. -/
  | free (o : Object)
  /-- Another scheduler is selected. -/
  | select (g : SchedulerKind)
  /-- `g_preemption` is stored. -/
  | preemption (b : Bool)
  /-- `g_need_reschedule` is stored. -/
  | reschedule (b : Bool)
  deriving DecidableEq

/-- The references to a new thread: its own one, and that of its parent if it is attached. -/
def Thread.HeldFrom (th : Thread) (parent : ThreadId) : Prop :=
  th.parent = none ∧ th.refcount = 1 ∨ th.parent = some parent ∧ th.refcount = 2

theorem newThread_heldFrom (mode : ThreadMode) (process : Process) (s : Sched) :
    (newThread mode process s).HeldFrom s.gCurrent := by
  cases mode with
  | attached => exact .inr ⟨rfl, rfl⟩
  | detached => exact .inl ⟨rfl, rfl⟩

/-- A configuration: who has the CPU, and the state. -/
abbrev Config := Option ThreadId × Sched

/-- One move. The moves without a label change no queue but the run queue and no field of a
record but the tick counter, the times and, on a dispatch, the state. -/
inductive Move : Option Label → Config → Config → Prop
  | touch {x : Option ThreadId} {s : Sched} {t : ThreadId} {th th' : Thread}
      (hth : s.threads t = some th) (hstate : th'.state = th.state)
      (hprio : th'.process.priority = th.process.priority) (href : th'.refcount = th.refcount)
      (hparent : th'.parent = th.parent) (hcode : th'.exitcode = th.exitcode) :
      Move none (x, s) (x, s.setThread t th')
  | globals {x : Option ThreadId} {s : Sched} (numticks quantum pid numThreads : ℕ) :
      Move none (x, s)
        (x, { s with gNumticks := numticks, gQuantum := quantum, pid, gNumThreads := numThreads })
  | dispatch {s : Sched} {t : ThreadId} {rest : List ThreadId} {th : Thread}
      (hq : s.queue .runqueue = t :: rest) (hth : s.threads t = some th) :
      Move none (none, s)
        (some t, { (s.setQueue .runqueue rest).setThread t { th with state := .running } with
          dispatched := s.dispatched ++ [t], gCurrent := t })
  | ready {s : Sched} {t : ThreadId} {th : Thread} (hth : s.threads t = some th)
      (hrun : th.state = .running) :
      Move (some (.ready t)) (some t, s)
        (none, scheduleInto .runqueue t (s.setThread t { th with state := .ready }))
  | block {s : Sched} {t : ThreadId} {th : Thread} (q : WaitQueue) (hth : s.threads t = some th)
      (hrun : th.state = .running) :
      Move (some (.block t q)) (some t, s) (none, threadQueueAppend (.wait q) t s)
  | wake {x : Option ThreadId} {s : Sched} {t : ThreadId} {rest : List ThreadId} {th : Thread}
      {q : WaitQueue} (hq : s.queue (.wait q) = t :: rest) (hth : s.threads t = some th) :
      Move (some (.wake q)) (x, s) (x, scheduleInto .runqueue t
        ((s.setQueue (.wait q) rest).setThread t { th with state := .ready }))
  | merge {x : Option ThreadId} {s : Sched} {t : ThreadId} {rest : List ThreadId} {th : Thread}
      (hq : s.queue .newqueue = t :: rest) (hth : s.threads t = some th) :
      Move (some .merge) (x, s) (x, scheduleInto .runqueue t
        ((s.setQueue .newqueue rest).setThread t { th with state := .ready }))
  | spawn {x : Option ThreadId} {s : Sched} {th : Thread} (hstate : th.state = .ready)
      (href : th.HeldFrom s.gCurrent) :
      Move (some (.spawn s.nextThread)) (x, s)
        (x, scheduleInto .runqueue s.nextThread (allocThread th s).2)
  | spawnNew {x : Option ThreadId} {s : Sched} {th : Thread} (hstate : th.state = .new)
      (href : th.HeldFrom s.gCurrent) :
      Move (some (.spawnNew s.nextThread)) (x, s)
        (x, scheduleInto .newqueue s.nextThread (allocThread th s).2)
  | detach {x : Option ThreadId} {s : Sched} {t : ThreadId} {th : Thread}
      (hth : s.threads t = some th) (hpos : 0 < th.refcount) :
      Move (some (.detach t)) (x, s) (x, s.setThread t { th with refcount := th.refcount - 1 })
  | exit {s : Sched} {t : ThreadId} {th th' : Thread} (hth : s.threads t = some th)
      (hstate : th'.state = .exited) (hprio : th'.process.priority = th.process.priority)
      (href : th'.refcount = th.refcount) (hparent : th'.parent = th.parent) :
      Move (some (.exit t th'.exitcode)) (some t, s) (none, s.setThread t th')
  | prioritize {x : Option ThreadId} {s : Sched} {t : ThreadId} {th th' : Thread}
      (hth : s.threads t = some th) (hstate : th'.state = th.state)
      (hprio : th'.process.priority = defaultPriority) (href : th'.refcount = th.refcount)
      (hparent : th'.parent = th.parent) (hcode : th'.exitcode = th.exitcode) :
      Move (some (.prioritize t)) (x, s) (x, s.setThread t th')
  | free {x : Option ThreadId} {s : Sched} (o : Object) :
      Move (some (.free o)) (x, s) (x, s.free o)
  | select {x : Option ThreadId} {s : Sched} (g : SchedulerKind) :
      Move (some (.select g)) (x, s) (x, { s with gScheduler := g })
  | preemption {x : Option ThreadId} {s : Sched} (b : Bool) :
      Move (some (.preemption b)) (x, s) (x, { s with gPreemption := b })
  | reschedule {x : Option ThreadId} {s : Sched} (b : Bool) :
      Move (some (.reschedule b)) (x, s) (x, { s with gNeedReschedule := b })

/-- Sequences of moves whose labels are all among `A`. -/
def Moves (A : Label → Prop) : Config → Config → Prop :=
  Relation.ReflTransGen fun c c' => ∃ l, (∀ a, l = some a → A a) ∧ Move l c c'

namespace Moves

variable {A B : Label → Prop} {c c' c'' : Config}

theorem refl (c : Config) : Moves A c c := Relation.ReflTransGen.refl

theorem trans (h : Moves A c c') (h' : Moves A c' c'') : Moves A c c'' :=
  Relation.ReflTransGen.trans h h'

theorem silent (h : Move none c c') : Moves A c c' := .single ⟨none, by simp, h⟩

theorem labelled {a : Label} (ha : A a) (h : Move (some a) c c') : Moves A c c' :=
  .single ⟨some a, by rintro _ ⟨⟩; exact ha, h⟩

theorem mono (hAB : ∀ a, A a → B a) (h : Moves A c c') : Moves B c c' :=
  Relation.ReflTransGen.mono (fun _ _ ⟨l, hl, hm⟩ => ⟨l, fun a ha => hAB a (hl a ha), hm⟩) _ _ h

/-- What every move keeps, a sequence of moves keeps. -/
theorem invariant {I : Config → Prop} (h : Moves A c c')
    (hmove : ∀ l c c', (∀ a, l = some a → A a) → I c → Move l c c' → I c') (hc : I c) : I c' := by
  induction h with
  | refl => exact hc
  | tail _ hstep ih =>
    obtain ⟨l, hl, hm⟩ := hstep
    exact hmove l _ _ hl ih hm

end Moves

/-! ## Operations as sequences of moves -/

section Operations

variable {s s' : Sched} {A : Label → Prop} {x : Option ThreadId}

theorem narrator_eq_ok {t : ThreadId} {u : Unit} : narrator t s = .ok u ↔
    ∃ th, s.threads t = some th ∧ .thread t ∉ s.freed ∧ .process t ∉ s.freed := by
  simp only [narrator, bind_eq_ok, Sched.derefProcess_eq_ok, pure_eq_ok]
  constructor
  · rintro ⟨_, ⟨th, hth, hf, hp, -⟩, -⟩
    exact ⟨th, hth, hf, hp⟩
  · rintro ⟨th, hth, hf, hp⟩
    exact ⟨_, ⟨th, hth, hf, hp, rfl⟩, trivial⟩

theorem threadQueueRemoveFirst_eq_ok {q : QueueId} {t : ThreadId} :
    threadQueueRemoveFirst q s = .ok (t, s') ↔
      ∃ rest, s.queue q = t :: rest ∧ s' = s.setQueue q rest := by
  unfold threadQueueRemoveFirst
  split
  next h => simp [h]
  next head rest h =>
    simp only [Except.ok.injEq, Prod.mk.injEq, h, List.cons.injEq]
    constructor
    · rintro ⟨rfl, rfl⟩
      exact ⟨rest, ⟨rfl, rfl⟩, rfl⟩
    · rintro ⟨_, ⟨rfl, rfl⟩, rfl⟩
      exact ⟨rfl, rfl⟩

/-- What `thread_make_runnable` does when it returns. -/
theorem threadMakeRunnable_eq_ok {t : ThreadId} : threadMakeRunnable t s = .ok s' ↔
    ∃ th, s.threads t = some th ∧ .thread t ∉ s.freed ∧ .process t ∉ s.freed ∧
      s' = scheduleInto .runqueue t (s.setThread t { th with state := .ready }) := by
  simp only [threadMakeRunnable, bind_eq_ok, Sched.deref_eq_ok, narrator_eq_ok, pure_eq_ok]
  constructor
  · rintro ⟨th, ⟨hth, hf⟩, _, ⟨_, -, -, hp⟩, rfl⟩
    exact ⟨th, hth, hf, hp, rfl⟩
  · rintro ⟨th, hth, hf, hp, rfl⟩
    exact ⟨th, ⟨hth, hf⟩, (), ⟨_, Function.update_self .., hf, hp⟩, rfl⟩

/-- What `thread_next_runnable` does when it returns. -/
theorem threadNextRunnable_eq_ok {t : ThreadId} : threadNextRunnable s = .ok (t, s') ↔
    ∃ rest th, s.queue .runqueue = t :: rest ∧ s.threads t = some th ∧ .thread t ∉ s.freed ∧
      .process t ∉ s.freed ∧
      s' = { (s.setQueue .runqueue rest).setThread t { th with state := .running } with
        dispatched := s.dispatched ++ [t] } := by
  simp only [threadNextRunnable, bind_eq_ok, Prod.exists, threadQueueRemoveFirst_eq_ok,
    Sched.deref_eq_ok, narrator_eq_ok, pure_eq_ok, Prod.mk.injEq]
  constructor
  · rintro ⟨t, _, ⟨rest, hq, rfl⟩, th, ⟨hth, hf⟩, _, ⟨_, -, -, hp⟩, rfl, rfl⟩
    exact ⟨rest, th, hq, hth, hf, hp, rfl⟩
  · rintro ⟨rest, th, hq, hth, hf, hp, rfl⟩
    exact ⟨t, _, ⟨rest, hq, rfl⟩, th, ⟨hth, hf⟩, (), ⟨_, Function.update_self .., hf, hp⟩,
      rfl, rfl⟩

theorem threadRelinquishCpu_eq_ok : threadRelinquishCpu s = .ok s' ↔
    ∃ th, s.threads s.gCurrent = some th ∧ .thread s.gCurrent ∉ s.freed ∧ th.state = .running ∧
      s' = s.setThread s.gCurrent { th with numTicks := 0 } := by
  simp only [threadRelinquishCpu, bind_eq_ok, Sched.deref_eq_ok, require_eq_ok, pure_eq_ok]
  constructor
  · rintro ⟨th, ⟨hth, hf⟩, -, hrun, rfl⟩
    exact ⟨th, hth, hf, hrun, rfl⟩
  · rintro ⟨th, hth, hf, hrun, rfl⟩
    exact ⟨th, ⟨hth, hf⟩, (), hrun, rfl⟩

theorem threadSchedule_moves (h : threadSchedule s = .ok s') :
    Moves A (none, s) (some s'.gCurrent, s') := by
  simp only [threadSchedule, threadSwitchTo, bind_eq_ok, Prod.exists, threadNextRunnable_eq_ok,
    pure_eq_ok] at h
  obtain ⟨t, _, ⟨rest, th, hq, hth, -, -, rfl⟩, _, -, rfl⟩ := h
  exact Moves.silent (.dispatch hq hth)

theorem threadRelinquishCpu_moves (h : threadRelinquishCpu s = .ok s') :
    Moves A (some s.gCurrent, s) (some s.gCurrent, s') ∧ s'.gCurrent = s.gCurrent ∧
      ∃ th, s'.threads s.gCurrent = some th ∧ th.state = .running := by
  obtain ⟨th, hth, -, hrun, rfl⟩ := threadRelinquishCpu_eq_ok.mp h
  exact ⟨Moves.silent (.touch hth rfl rfl rfl rfl rfl), rfl, _, Function.update_self .., hrun⟩

theorem threadMakeRunnable_ready_moves {t : ThreadId} {th : Thread}
    (hth : s.threads t = some th) (hrun : th.state = .running) (hA : A (.ready t))
    (h : threadMakeRunnable t s = .ok s') : Moves A (some t, s) (none, s') := by
  obtain ⟨th', hth', -, -, rfl⟩ := threadMakeRunnable_eq_ok.mp h
  obtain rfl : th' = th := by simpa [hth'] using hth
  exact Moves.labelled hA (.ready hth' hrun)

theorem threadYield_moves (hA : A (.ready s.gCurrent)) (h : threadYield s = .ok s') :
    Moves A (some s.gCurrent, s) (some s'.gCurrent, s') := by
  simp only [threadYield, bind_eq_ok] at h
  obtain ⟨s₁, h₁, s₂, h₂, h⟩ := h
  obtain ⟨hm, hcur, th, hth, hrun⟩ := threadRelinquishCpu_moves h₁
  -- the thread leaves the CPU for the run queue, which is therefore not empty at the dispatch
  rw [hcur] at h₂
  exact (hm.trans (threadMakeRunnable_ready_moves hth hrun hA h₂)).trans (threadSchedule_moves h)

theorem threadWait_moves {q : WaitQueue} (hA : A (.block s.gCurrent q))
    (h : threadWait q s = .ok s') :
    Moves A (some s.gCurrent, s) (some s'.gCurrent, s') := by
  simp only [threadWait, bind_eq_ok] at h
  obtain ⟨_, -, s₁, h₁, h⟩ := h
  obtain ⟨hm, hcur, th, hth, hrun⟩ := threadRelinquishCpu_moves h₁
  rw [hcur] at h
  exact (hm.trans (Moves.labelled hA (.block q hth hrun))).trans (threadSchedule_moves h)

/-- What `thread_wakeup_one` does when it returns. -/
theorem threadWakeupOne_eq_ok {q : WaitQueue} : threadWakeupOne q s = .ok s' ↔
    ∃ t rest th, s.queue (.wait q) = t :: rest ∧ s.threads t = some th ∧ .thread t ∉ s.freed ∧
      .process t ∉ s.freed ∧ s' = scheduleInto .runqueue t
        ((s.setQueue (.wait q) rest).setThread t { th with state := .ready }) := by
  simp only [threadWakeupOne, bind_eq_ok, Prod.exists, threadQueueRemoveFirst_eq_ok,
    threadMakeRunnable_eq_ok]
  constructor
  · rintro ⟨t, _, ⟨rest, hq, rfl⟩, th, hth, hf, hp, rfl⟩
    exact ⟨t, rest, th, hq, hth, hf, hp, rfl⟩
  · rintro ⟨t, rest, th, hq, hth, hf, hp, rfl⟩
    exact ⟨t, _, ⟨rest, hq, rfl⟩, th, hth, hf, hp, rfl⟩

theorem threadWakeupOne_moves {q : WaitQueue} (hA : A (.wake q))
    (h : threadWakeupOne q s = .ok s') :
    Moves A (x, s) (x, s') ∧ s'.gCurrent = s.gCurrent := by
  obtain ⟨t, rest, th, hq, hth, -, -, rfl⟩ := threadWakeupOne_eq_ok.mp h
  exact ⟨Moves.labelled hA (.wake hq hth), rfl⟩

/-- The rule of `thread_wakeup`: what waking the first sleeper keeps holds when it returns, and
the queue is empty then. -/
theorem threadWakeup_rule {q : WaitQueue} {I : Sched → Prop}
    (hone : ∀ a b, I a → threadWakeupOne q a = .ok b → I b) (hI : I s)
    (h : threadWakeup q s = .ok s') : I s' ∧ s'.queue (.wait q) = [] := by
  have hrule := loop_rule (I := I) (μ := fun s' => (s'.queue (.wait q)).length)
    (fun a b hI _ hb => by
      obtain ⟨t, rest, th, hq, -, -, -, rfl⟩ := threadWakeupOne_eq_ok.mp hb
      exact ⟨hone _ _ hI hb, by simp [scheduleInto, hq]⟩)
    (fun a ha => List.length_pos_iff.mpr (by simpa using ha)) le_rfl hI h
  exact ⟨hrule.1, by simpa using hrule.2⟩

theorem threadWakeup_moves {q : WaitQueue} (hA : A (.wake q)) (h : threadWakeup q s = .ok s') :
    Moves A (x, s) (x, s') ∧ s'.gCurrent = s.gCurrent :=
  (threadWakeup_rule (I := fun s' => Moves A (x, s) (x, s') ∧ s'.gCurrent = s.gCurrent)
    (fun a b hI hb => by
      obtain ⟨hm, hcur⟩ := threadWakeupOne_moves (x := x) hA hb
      exact ⟨hI.1.trans hm, hcur.trans hI.2⟩) ⟨.refl _, rfl⟩ h).1

theorem mergeOne_eq_ok : mergeOne s = .ok s' ↔
    ∃ t rest th, s.queue .newqueue = t :: rest ∧ s.threads t = some th ∧ .thread t ∉ s.freed ∧
      .process t ∉ s.freed ∧ s' = scheduleInto .runqueue t
        ((s.setQueue .newqueue rest).setThread t { th with state := .ready }) := by
  simp only [mergeOne, bind_eq_ok, Prod.exists, threadQueueRemoveFirst_eq_ok, narrator_eq_ok,
    Sched.deref_eq_ok, pure_eq_ok]
  constructor
  · rintro ⟨t, _, ⟨rest, hq, rfl⟩, _, ⟨_, -, -, hp⟩, th, ⟨hth, hf⟩, rfl⟩
    exact ⟨t, rest, th, hq, hth, hf, hp, rfl⟩
  · rintro ⟨t, rest, th, hq, hth, hf, hp, rfl⟩
    exact ⟨t, _, ⟨rest, hq, rfl⟩, (), ⟨th, hth, hf, hp⟩, th, ⟨hth, hf⟩, rfl⟩

/-- The rule of the loop of `merge_new_with_runnable`: what admitting the first new thread keeps
holds behind it, and the new queue is empty there. -/
theorem mergeLoop_rule {I : Sched → Prop} (hone : ∀ a b, I a → mergeOne a = .ok b → I b)
    (hI : I s) (h : loop (fun s => !(s.queue .newqueue).isEmpty) mergeOne
      (s.queue .newqueue).length s = .ok s') : I s' ∧ s'.queue .newqueue = [] := by
  have hrule := loop_rule (I := I) (μ := fun s' => (s'.queue .newqueue).length)
    (fun a b hI _ hb => by
      obtain ⟨t, rest, th, hq, hth, -, -, rfl⟩ := mergeOne_eq_ok.mp hb
      exact ⟨hone _ _ hI hb, by simp [scheduleInto, hq]⟩)
    (fun a ha => List.length_pos_iff.mpr (by simpa using ha)) le_rfl hI h
  exact ⟨hrule.1, by simpa using hrule.2⟩

theorem mergeNewWithRunnable_rule {I : Sched → Prop} (hone : ∀ a b, I a → mergeOne a = .ok b → I b)
    (hI : I s) (h : mergeNewWithRunnable s = .ok s') : I s' ∧ s'.queue .newqueue = [] := by
  simp only [mergeNewWithRunnable, bind_eq_ok, require_eq_ok, pure_eq_ok] at h
  obtain ⟨s₁, h₁, -, hempty, rfl⟩ := h
  -- `thread_queue_clear` finds nothing to clear
  have hsame : s₁.setQueue .newqueue [] = s₁ := by
    rw [Sched.setQueue, ← hempty, Function.update_eq_self]
  rw [hsame]
  exact mergeLoop_rule hone hI h₁

theorem mergeNewWithRunnable_moves (hA : A .merge) (h : mergeNewWithRunnable s = .ok s') :
    Moves A (x, s) (x, s') ∧ s'.gCurrent = s.gCurrent :=
  (mergeNewWithRunnable_rule (I := fun s' => Moves A (x, s) (x, s') ∧ s'.gCurrent = s.gCurrent)
    (fun a b hI hb => by
      obtain ⟨t, rest, th, hq, hth, -, -, rfl⟩ := mergeOne_eq_ok.mp hb
      exact ⟨hI.1.trans (Moves.labelled hA (.merge hq hth)), hI.2⟩) ⟨.refl _, rfl⟩ h).1

/-- What `thread_create` has done when it makes the thread runnable: the process still has the
zeroes of `mem_alloc` as its pid and its priority. -/
theorem threadCreate_eq_ok {mode : ThreadMode} {arrival : ℕ} {t : ThreadId}
    (h : threadCreate mode arrival s = .ok (t, s')) : t = s.nextThread ∧
      s' = scheduleInto .runqueue s.nextThread
        (allocThread { newThread mode { time := { arrival } } s with state := .ready } s).2 := by
  simp only [threadCreate, bind_eq_ok, threadMakeRunnable_eq_ok, pure_eq_ok, Prod.mk.injEq] at h
  obtain ⟨_, ⟨th, hth, -, -, rfl⟩, rfl, rfl⟩ := h
  rw [allocThread, Sched.setThread_threads, Function.update_self, Option.some.injEq] at hth
  subst hth
  refine ⟨rfl, ?_⟩
  simp [allocThread, Sched.setThread]

/-- What a store into the process of a new thread does when it returns. -/
theorem storeProcess_eq_ok {t : ThreadId} {store : Process → Process}
    (h : storeProcess t store s = .ok s') :
    ∃ th, s.threads t = some th ∧ .thread t ∉ s.freed ∧ .process t ∉ s.freed ∧
      s' = s.setThread t { th with process := store th.process } := by
  simp only [storeProcess, bind_eq_ok, Sched.derefProcess_eq_ok, Sched.deref_eq_ok,
    pure_eq_ok] at h
  obtain ⟨_, ⟨th, hth, hf, hp, rfl⟩, th', ⟨hth', -⟩, rfl⟩ := h
  obtain rfl := Option.some.inj (hth.symm.trans hth')
  exact ⟨th, hth, hf, hp, rfl⟩

/-- What `thread_create_from_job` does when it returns: the record of the job starts with the time
at which it is made. -/
theorem threadCreateFromJob_eq_ok {process : Process} {mode : ThreadMode} {t : ThreadId}
    (h : threadCreateFromJob process mode s = .ok (t, s')) : t = s.nextThread ∧
      s' = scheduleInto .newqueue s.nextThread
        (allocThread { newThread mode
          { process with time := { process.time with arrival := s.gNumticks } } s with
            state := .new } s).2 := by
  simp only [threadCreateFromJob, threadMakeNew, bind_eq_ok, Sched.derefProcess_eq_ok,
    Sched.deref_eq_ok, pure_eq_ok, Prod.mk.injEq] at h
  obtain ⟨_, ⟨_, ⟨th, hth, -, -, rfl⟩, th', ⟨hth', -⟩, rfl⟩, rfl, rfl⟩ := h
  obtain rfl := Option.some.inj (hth.symm.trans hth')
  rw [allocThread, Sched.setThread_threads, Function.update_self, Option.some.injEq] at hth
  subst hth
  refine ⟨rfl, ?_⟩
  cases mode <;> simp [allocThread, Sched.setThread, newThread]

theorem threadCreate_moves {mode : ThreadMode} {arrival : ℕ} {t : ThreadId}
    (hA : A (.spawn s.nextThread)) (h : threadCreate mode arrival s = .ok (t, s')) :
    Moves A (x, s) (x, s') ∧ s'.gCurrent = s.gCurrent ∧ t = s.nextThread := by
  obtain ⟨rfl, rfl⟩ := threadCreate_eq_ok h
  refine ⟨Moves.labelled hA (.spawn rfl ?_), rfl, rfl⟩
  exact newThread_heldFrom mode _ s

theorem genPid_moves : Moves A (x, s) (x, (genPid s).2) :=
  Moves.silent (.globals s.gNumticks s.gQuantum (s.pid + 1) (s.pid + 1))

theorem threadCreatePid_moves {t : ThreadId} {pid : ℕ} (h : threadCreatePid t pid s = .ok s') :
    Moves A (x, s) (x, s') ∧ s'.gCurrent = s.gCurrent := by
  obtain ⟨th, hth, -, -, rfl⟩ := storeProcess_eq_ok h
  exact ⟨Moves.silent (.touch hth rfl rfl rfl rfl rfl), rfl⟩

theorem threadCreatePriority_moves {t : ThreadId} (hA : A (.prioritize t))
    (h : threadCreatePriority t s = .ok s') :
    Moves A (x, s) (x, s') ∧ s'.gCurrent = s.gCurrent := by
  obtain ⟨th, hth, -, -, rfl⟩ := storeProcess_eq_ok h
  exact ⟨Moves.labelled hA (.prioritize hth rfl rfl rfl rfl rfl), rfl⟩

theorem threadCreateFromJob_moves {process : Process} {mode : ThreadMode} {t : ThreadId}
    (hA : A (.spawnNew s.nextThread)) (h : threadCreateFromJob process mode s = .ok (t, s')) :
    Moves A (x, s) (x, s') ∧ s'.gCurrent = s.gCurrent ∧ t = s.nextThread := by
  obtain ⟨rfl, rfl⟩ := threadCreateFromJob_eq_ok h
  refine ⟨Moves.labelled hA (.spawnNew rfl ?_), rfl, rfl⟩
  exact newThread_heldFrom mode _ s

/-- What `first_response` does when it returns. -/
theorem firstResponse_eq_ok (h : firstResponse s = .ok s') :
    ∃ th, s.threads s.gCurrent = some th ∧ s' = s.setThread s.gCurrent { th with
      process := { th.process with time := { th.process.time with firstResponse := s.gNumticks } } } := by
  simp only [firstResponse, bind_eq_ok, Sched.derefProcess_eq_ok, Sched.deref_eq_ok,
    pure_eq_ok] at h
  obtain ⟨_, ⟨th, hth, -, -, rfl⟩, th', ⟨hth', -⟩, rfl⟩ := h
  obtain rfl := Option.some.inj (hth.symm.trans hth')
  exact ⟨th, hth, rfl⟩

theorem firstResponse_moves (h : firstResponse s = .ok s') :
    Moves A (x, s) (x, s') ∧ s'.gCurrent = s.gCurrent := by
  obtain ⟨th, hth, rfl⟩ := firstResponse_eq_ok h
  exact ⟨Moves.silent (.touch hth rfl rfl rfl rfl rfl), rfl⟩

/-- What `thread_detach` does before it may schedule the destruction. -/
theorem threadDetach_eq_ok {t : ThreadId} {b : Bool} (h : threadDetach t s = .ok (b, s')) :
    ∃ th, s.threads t = some th ∧ .thread t ∉ s.freed ∧ 0 < th.refcount ∧
      b = decide (th.refcount = 1) ∧ s' = s.setThread t { th with refcount := th.refcount - 1 } := by
  simp only [threadDetach, bind_eq_ok, Sched.deref_eq_ok, require_eq_ok] at h
  obtain ⟨th, ⟨hth, hf⟩, -, hpos, h⟩ := h
  split at h
  next hzero =>
    simp only [bind_eq_ok, pure_eq_ok, Prod.mk.injEq] at h
    obtain ⟨_, -, rfl, rfl⟩ := h
    exact ⟨th, hth, hf, hpos, by simp; omega, rfl⟩
  next hzero =>
    simp only [pure_eq_ok, Prod.mk.injEq] at h
    obtain ⟨rfl, rfl⟩ := h
    exact ⟨th, hth, hf, hpos, by simp; omega, rfl⟩

theorem threadExitFinish_moves {code : ℤ} (hexit : A (.exit s.gCurrent code))
    (hwake : A (.wake (.thread s.gCurrent))) (h : threadExitFinish code s = .ok s') :
    Moves A (some s.gCurrent, s) (some s'.gCurrent, s') := by
  simp only [threadExitFinish, bind_eq_ok, Sched.deref_eq_ok, Sched.derefProcess_eq_ok] at h
  obtain ⟨th, ⟨hth, -⟩, p, ⟨_, hth', -, -, rfl⟩, h⟩ := h
  -- the record and its process are read one after the other, from one thread
  obtain rfl := Option.some.inj (hth.symm.trans hth')
  refine .trans (Moves.labelled hexit (Move.exit hth (show Thread.state { th with
    exitcode := code
    state := .exited
    process := { th.process with time := { th.process.time with termination := s.gNumticks } } }
    = .exited from rfl) rfl rfl rfl)) ?_
  split at h
  · obtain ⟨s₁, h₁, h⟩ := bind_eq_ok.mp h
    -- the joiners are woken while nobody has the CPU
    exact (threadWakeup_moves hwake h₁).1.trans (threadSchedule_moves h)
  · exact threadSchedule_moves h

theorem memFree_moves {o : Object} (hfree : A (.free o)) (hwake : A (.wake .heap))
    (h : memFree o s = .ok s') : Moves A (x, s) (x, s') ∧ s'.gCurrent = s.gCurrent := by
  obtain ⟨hm, hcur⟩ := threadWakeup_moves (x := x) hwake h
  exact ⟨.trans (Moves.labelled hfree (.free o)) hm, hcur⟩

theorem memFreeFrame_moves {o : Object} (hfree : A (.free o)) (hwake : A (.wake .frame))
    (h : memFreeFrame o s = .ok s') : Moves A (x, s) (x, s') ∧ s'.gCurrent = s.gCurrent := by
  obtain ⟨hm, hcur⟩ := threadWakeup_moves (x := x) hwake h
  exact ⟨.trans (Moves.labelled hfree (.free o)) hm, hcur⟩

/-- A tick asks for a reschedule under RR only. -/
theorem timerProcessTick_moves (hA : s.gScheduler = .rr → A (.reschedule true))
    (h : timerProcessTick s = .ok s') :
    Moves A (x, s) (x, s') ∧ s'.gCurrent = s.gCurrent ∧ s'.gPreemption = s.gPreemption ∧
      (s.gScheduler ≠ .rr → s'.gNeedReschedule = s.gNeedReschedule) := by
  simp only [timerProcessTick, bind_eq_ok, Sched.deref_eq_ok, Sched.derefProcess_eq_ok] at h
  obtain ⟨th, ⟨hth, -⟩, p, ⟨_, hth', -, -, rfl⟩, h⟩ := h
  obtain rfl := Option.some.inj (hth.symm.trans hth')
  have hm : Moves A (x, s) (x, _) := .trans
    (Moves.silent (.globals (u32Succ s.gNumticks) s.gQuantum s.pid s.gNumThreads))
    (Moves.silent (.touch (t := s.gCurrent) hth (show Thread.state { th with
      numTicks := u32Succ th.numTicks
      process := { th.process with time := { th.process.time with
        running := u32Succ th.process.time.running } } } = th.state from rfl) rfl rfl rfl rfl))
  split at h
  next hrr =>
    simp only [rrScheduler, bind_eq_ok, pure_eq_ok] at h
    obtain ⟨_, -, rfl⟩ := h
    split
    · exact ⟨hm.trans (Moves.labelled (hA hrr) (.reschedule true)), rfl, rfl,
        fun hne => absurd hrr hne⟩
    · exact ⟨hm, rfl, rfl, fun _ => rfl⟩
  next hrr =>
    obtain rfl := pure_eq_ok.mp h
    exact ⟨hm, rfl, rfl, fun _ => rfl⟩

/-- The interrupted thread keeps the CPU, or it is put back on the run queue and the first
thread there goes on. -/
theorem intHandleReturn_moves
    (hA : s.gPreemption = true → s.gNeedReschedule = true →
      A (.ready s.gCurrent) ∧ A (.reschedule false))
    (h : intHandleReturn s = .ok s') :
    Moves A (some s.gCurrent, s) (some s'.gCurrent, s') ∧
      (s.gPreemption = false → s' = s) ∧ s'.gPreemption = s.gPreemption := by
  unfold intHandleReturn at h
  split at h
  next hp =>
    obtain rfl := pure_eq_ok.mp h
    exact ⟨.refl _, fun _ => rfl, rfl⟩
  next hp =>
    have hp' : s.gPreemption = true := by simpa using hp
    split at h
    next hn =>
      obtain rfl := pure_eq_ok.mp h
      exact ⟨.refl _, fun _ => rfl, rfl⟩
    next hn =>
      obtain ⟨hAready, hAclear⟩ := hA hp' (by simpa using hn)
      simp only [bind_eq_ok, Prod.exists, pure_eq_ok] at h
      obtain ⟨s₁, h₁, s₂, h₂, t, s₃, h₃, rfl⟩ := h
      -- the request is cleared, the thread is put back, and the first one of the run queue goes on
      have hclear : Moves A (some s.gCurrent, s)
          (some s.gCurrent, { s with gNeedReschedule := false }) :=
        Moves.labelled hAclear (.reschedule false)
      obtain ⟨hm, hcur, th, hth, hrun⟩ := threadRelinquishCpu_moves (A := A) h₁
      obtain ⟨_, -, -, -, hs₁⟩ := threadRelinquishCpu_eq_ok.mp h₁
      rw [hcur] at h₂
      obtain ⟨rest, th', hq, hth', -, -, rfl⟩ := threadNextRunnable_eq_ok.mp h₃
      have hready := threadMakeRunnable_ready_moves hth hrun hAready h₂
      obtain ⟨_, -, -, -, rfl⟩ := threadMakeRunnable_eq_ok.mp h₂
      refine ⟨(hclear.trans (hm.trans hready)).trans (Moves.silent (.dispatch hq hth')), ?_, ?_⟩
      · exact fun hfalse => absurd hfalse hp
      · rw [hs₁]; rfl

end Operations

end GeekOS
