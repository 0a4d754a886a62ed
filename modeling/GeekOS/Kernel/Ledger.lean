import Mathlib.Algebra.GroupWithZero.Nat
import GeekOS.Kernel.Control
import GeekOS.Kernel.Reachable

/-!
# The ledger of threads

The end of life of a thread, without schedulers, queues and clocks: who refers to a record, who
has exited with which code, whose destruction is scheduled, and what has been given back. The
`Ledger` of a kernel is this part of its state, and `LedgerStep` says what each act does to it.

* `Act.run_ledger`: an act of the kernel is a step of the ledger;
* `Machine.Step.ledger`: so is an event, the interrupts leaving the ledger alone.
-/

namespace GeekOS

open Result TransitionSystem

/-- What the record of a thread says about its end of life. -/
structure Life where
  parent : Option ThreadId
  refcount : ℕ
  exitcode : ℤ
  exited : Bool
  deriving DecidableEq

/-- The part of a record that is about its end of life. -/
def Thread.life (th : Thread) : Life where
  parent := th.parent
  refcount := th.refcount
  exitcode := th.exitcode
  exited := th.state = .exited

/-- What the records say about the end of life. -/
def Sched.life (s : Sched) (t : ThreadId) : Option Life := (s.threads t).map Thread.life

/-- The part of the state that the end of life of threads is about. -/
structure Ledger where
  life : ThreadId → Option Life
  nextThread : ThreadId
  freed : List Object
  workqueue : List WorkItem
  exitArg : ThreadId → Option ℤ
  scheduled : List ThreadId
  joined : List ThreadId
  returned : List (ThreadId × ℤ)

/-- The ledger of the kernel. -/
def Kernel.ledger (k : Kernel) : Ledger where
  life := k.sched.life
  nextThread := k.sched.nextThread
  freed := k.sched.freed
  workqueue := k.workqueue
  exitArg := k.exitArg
  scheduled := k.scheduled
  joined := k.joined
  returned := k.returned

/-! ## The records -/

section Life

variable {s : Sched} {t : ThreadId} {th th' : Thread}

theorem life_of_threads (hth : s.threads t = some th) : s.life t = some th.life := by
  rw [Sched.life, hth, Option.map_some]

theorem threads_of_life {l : Life} (hl : s.life t = some l) :
    ∃ th, s.threads t = some th ∧ th.life = l :=
  Option.map_eq_some_iff.mp hl

theorem life_setThread :
    (s.setThread t th).life = Function.update s.life t (some th.life) := by
  funext u
  by_cases hu : u = t
  · rw [hu, Function.update_self, life_of_threads (Function.update_self ..)]
  · rw [Function.update_of_ne hu, Sched.life, Sched.setThread_threads, Function.update_of_ne hu]
    rfl

/-- A store that keeps what is said about the end of life. -/
theorem life_setThread_eq (hth : s.threads t = some th) (hlife : th'.life = th.life) :
    (s.setThread t th').life = s.life := by
  rw [life_setThread, hlife, ← life_of_threads hth, Function.update_eq_self]

end Life

/-- The move changes the ledger. -/
def Label.changesLedger : Label → Bool
  | .spawn _ | .spawnNew _ | .detach _ | .exit _ _ | .free _ => true
  | _ => false

/-- The other moves leave what the records say about the end of life alone. -/
theorem Moves.life_eq {A : Label → Prop} {c c' : Config} (h : Moves A c c')
    (hp : Placed c.1.toList c.2) (hA : ∀ l, A l → l.changesLedger = false) :
    c'.2.life = c.2.life ∧ c'.2.nextThread = c.2.nextThread ∧ c'.2.freed = c.2.freed := by
  have hI := h.invariant (I := fun c' => Placed c'.1.toList c'.2 ∧ c'.2.life = c.2.life ∧
    c'.2.nextThread = c.2.nextThread ∧ c'.2.freed = c.2.freed) ?_ ⟨hp, rfl, rfl, rfl⟩
  · exact hI.2
  rintro l c₁ c₂ hl ⟨hp, hlife, hnext, hfreed⟩ hm
  refine ⟨hp.move hm, ?_⟩
  -- a thread in a queue has not exited, so a new state in its record does not matter
  have hstate : ∀ {s : Sched} {q : QueueId} {t : ThreadId} {rest : List ThreadId} {th : Thread}
      {x : ThreadState}, Placed c₁.1.toList s → s.queue q = t :: rest → s.threads t = some th →
      x ≠ .exited → Thread.life { th with state := x } = th.life := by
    intro s q t rest th x hp hq hth hx
    have hne := hp.not_exited (.inr ⟨q, hq ▸ List.mem_cons_self⟩) hth
    simp [Thread.life, hne, hx]
  cases hm with
  | @touch x s t th th' hth hst hpr href hpar hcode =>
    refine ⟨(life_setThread_eq hth ?_).trans hlife, hnext, hfreed⟩
    simp [Thread.life, hst, href, hpar, hcode]
  | @prioritize x s t th th' hth hst hpr href hpar hcode =>
    refine ⟨(life_setThread_eq hth ?_).trans hlife, hnext, hfreed⟩
    simp [Thread.life, hst, href, hpar, hcode]
  | @dispatch s t rest th hq hth =>
    exact ⟨(life_setThread_eq (s := s.setQueue .runqueue rest) hth
      (hstate hp hq hth (by simp))).trans hlife, hnext, hfreed⟩
  -- a thread on the CPU is running, so it has not exited either
  | ready hth hrun =>
    refine ⟨(life_setThread_eq hth ?_).trans hlife, hnext, hfreed⟩
    simp [Thread.life, hrun]
  | @wake x s t rest th q hq hth =>
    exact ⟨(life_setThread_eq (s := s.setQueue (.wait q) rest) hth
      (hstate hp hq hth (by simp))).trans hlife, hnext, hfreed⟩
  | @merge x s t rest th hq hth =>
    exact ⟨(life_setThread_eq (s := s.setQueue .newqueue rest) hth
      (hstate hp hq hth (by simp))).trans hlife, hnext, hfreed⟩
  | globals | block | select | preemption | reschedule => exact ⟨hlife, hnext, hfreed⟩
  | spawn | spawnNew | detach | exit | free => 
    exact absurd (hA _ (hl _ rfl)) (by simp [Label.changesLedger])

namespace Ledger

/-! ## The steps of the ledger -/

/-- A new thread, with the references of `thread_create` and `thread_create_from_job`. -/
def spawn (L : Ledger) (l : Life) : Ledger :=
  { L with life := Function.update L.life L.nextThread (some l), nextThread := L.nextThread + 1 }

/-- A reference is dropped; the destruction is scheduled with the last one. -/
def detach (L : Ledger) (t : ThreadId) (l : Life) : Ledger :=
  { L with
    life := Function.update L.life t (some { l with refcount := l.refcount - 1 })
    scheduled := if l.refcount = 1 then L.scheduled ++ [t] else L.scheduled }

end Ledger

/-- The references to a new thread: its own one, and that of its parent if it is attached. -/
def Life.New (parent : ThreadId) (l : Life) : Prop :=
  l.exited = false ∧ (l.parent = none ∧ l.refcount = 1 ∨ l.parent = some parent ∧ l.refcount = 2)

/-- What `thread_detach` goes through to schedule the destruction. -/
def Life.destroyActs (t : ThreadId) (l : Life) : List Act :=
  if l.refcount = 1 then [.work (.schedule (.threadDestroy t) false false)] else []

namespace Act

/-- The act may change the ledger. -/
def changesLedger : Act → Bool
  | .thread (.createRun _ _) | .thread (.createFromJob _ _ (.makeNew _ _)) | .thread (.exit _)
  | .thread (.exitFinish _) | .thread (.joinTest _ _) | .thread (.joinReturn _ _)
  | .work (.link _ _) | .work (.loop _) | .work (.destroyProcess _) | .work (.destroyStack _)
  | .work (.destroyThread _) | .simulation (.longTermScheduler (_ :: _) _ (.makeNew _ _)) => true
  | _ => false

/-- The act that follows if the thread has gone to sleep in it. -/
def again : Act → Option Act
  | .thread (.joinTest child caller) => some (.thread (.joinTest child caller))
  | .work (.loop _) => some (.work (.loop true))
  | _ => none

end Act

/-- What an act of thread `c` does to the ledger, and the acts that follow. -/
inductive LedgerStep (c : ThreadId) (L : Ledger) : Act → List Act → Ledger → Prop
  | quiet {a : Act} {acts : List Act} (ha : a.changesLedger = false) : LedgerStep c L a acts L
  | again {a b : Act} (hb : a.again = some b) : LedgerStep c L a [b] L
  | create {mode : ThreadMode} {arrival : ℕ} {l : Life} (hl : l.New c) :
      LedgerStep c L (.thread (.createRun mode arrival)) [.thread (.createGenPid L.nextThread)]
        (L.spawn l)
  | createFromJob {job : Job} {mode : ThreadMode} {pid : ℕ} {priority : ℤ} {l : Life}
      (hl : l.New c) :
      LedgerStep c L (.thread (.createFromJob job mode (.makeNew pid priority))) [] (L.spawn l)
  | longTermScheduler {job : Job} {rest : List Job} {threads : List ThreadId} {pid : ℕ}
      {priority : ℤ} {l : Life} (hl : l.New c) (hparent : l.parent = some c) :
      LedgerStep c L (.simulation (.longTermScheduler (job :: rest) threads (.makeNew pid priority)))
        [.simulation (.longTermScheduler rest (threads ++ [L.nextThread]) .start)] (L.spawn l)
  | exit {code : ℤ} {l : Life} (hl : L.life c = some l) (hpos : 0 < l.refcount) :
      LedgerStep c L (.thread (.exit code)) (l.destroyActs c ++ [.thread (.exitFinish code)])
        { L.detach c l with exitArg := Function.update L.exitArg c (some code) }
  | exitFinish {code : ℤ} {l : Life} (hl : L.life c = some l) :
      LedgerStep c L (.thread (.exitFinish code)) []
        { L with life := Function.update L.life c (some { l with exitcode := code, exited := true }) }
  | threadJoin {child : ThreadId} {l : Life} (hl : L.life child = some l)
      (hparent : l.parent = some c) (hexited : l.exited = true) (hpos : 0 < l.refcount) :
      LedgerStep c L (.thread (.joinTest child .threadJoin))
        (l.destroyActs child ++ [.thread (.joinReturn child l.exitcode)])
        { L.detach child l with joined := child :: L.joined }
  | waitForChildren {child : ThreadId} {l : Life} (hl : L.life child = some l)
      (hparent : l.parent = some c) (hexited : l.exited = true) (hpos : 0 < l.refcount) :
      LedgerStep c L (.thread (.joinTest child .waitForChildren)) (l.destroyActs child)
        { L.detach child l with joined := child :: L.joined }
  | joinReturn {child : ThreadId} {code : ℤ} :
      LedgerStep c L (.thread (.joinReturn child code)) []
        { L with returned := (child, code) :: L.returned }
  | link {item : WorkItem} {iflag : Bool} :
      LedgerStep c L (.work (.link item iflag)) [] { L with workqueue := L.workqueue ++ [item] }
  | loop {item : WorkItem} {rest : List WorkItem} {slept : Bool}
      (hitem : L.workqueue = item :: rest) :
      LedgerStep c L (.work (.loop slept))
        [.work item.callback, .work .freeItem, .work (.loop false)] { L with workqueue := rest }
  | destroyProcess {t : ThreadId} {l : Life} (hl : L.life t = some l) (hexited : l.exited = true) :
      LedgerStep c L (.work (.destroyProcess t)) [.work (.destroyStack t)]
        { L with freed := .process t :: L.freed }
  | destroyStack {t : ThreadId} :
      LedgerStep c L (.work (.destroyStack t)) [.work (.destroyThread t)]
        { L with freed := .stack t :: L.freed }
  | destroyThread {t : ThreadId} :
      LedgerStep c L (.work (.destroyThread t)) [] { L with freed := .thread t :: L.freed }

/-! ## The acts of the kernel as steps of the ledger -/

section Run

variable {memory : Memory} {k k' : Kernel} {acts : List Act} {s s' : Sched}

theorem Life.new_newThread (mode : ThreadMode) (process : Process) (s : Sched) :
    Life.New s.gCurrent (newThread mode process s).life := by
  cases mode with
  | attached => exact ⟨rfl, .inr ⟨rfl, rfl⟩⟩
  | detached => exact ⟨rfl, .inl ⟨rfl, rfl⟩⟩

/-- A new record changes the ledger at its own place, whatever queue the thread joins. -/
theorem allocThread_life (s : Sched) (th : Thread) (q : QueueId) :
    (scheduleInto q s.nextThread (allocThread th s).2).life =
      Function.update s.life s.nextThread (some th.life) := by
  funext u
  by_cases hu : u = s.nextThread
  · rw [hu, Function.update_self, life_of_threads (Function.update_self ..)]
  · rw [Function.update_of_ne hu]
    simp [Sched.life, scheduleInto, allocThread, Function.update_of_ne hu]

/-- The record that `thread_create` makes. -/
theorem threadCreate_life {mode : ThreadMode} {arrival : ℕ} {t : ThreadId}
    (h : threadCreate mode arrival s = .ok (t, s')) :
    t = s.nextThread ∧ ∃ l : Life, l.New s.gCurrent ∧
      s'.life = Function.update s.life s.nextThread (some l) ∧ s'.nextThread = s.nextThread + 1 ∧
      s'.freed = s.freed := by
  obtain ⟨rfl, rfl⟩ := threadCreate_eq_ok h
  refine ⟨rfl, _, ?_, allocThread_life s _ .runqueue, rfl, rfl⟩
  -- `thread_make_runnable` has stored a state, but not that of a thread that has exited
  cases mode <;> exact Life.new_newThread _ _ s

/-- The record that `thread_create_from_job` makes. -/
theorem threadCreateFromJob_life {process : Process} {mode : ThreadMode} {t : ThreadId}
    (h : threadCreateFromJob process mode s = .ok (t, s')) :
    t = s.nextThread ∧ ∃ l : Life, l.New s.gCurrent ∧
      (mode = .attached → l.parent = some s.gCurrent) ∧
      s'.life = Function.update s.life s.nextThread (some l) ∧ s'.nextThread = s.nextThread + 1 ∧
      s'.freed = s.freed := by
  obtain ⟨rfl, rfl⟩ := threadCreateFromJob_eq_ok h
  refine ⟨rfl, _, ?_, ?_, allocThread_life s _ .newqueue, rfl, rfl⟩
  · cases mode <;> exact Life.new_newThread _ _ s
  · rintro rfl
    rfl

theorem Kernel.ledger_sched (hlife : s.life = k.sched.life)
    (hnext : s.nextThread = k.sched.nextThread) (hfreed : s.freed = k.sched.freed) :
    { k with sched := s }.ledger = k.ledger := by
  simp [ledger, hlife, hnext, hfreed]

/-- A thread that goes to sleep leaves the ledger alone. -/
theorem sleep_ledger {q : WaitQueue} (hp : Placed [k.current] k.sched)
    (h : threadWait q k.sched = .ok s) : { k with sched := s }.ledger = k.ledger := by
  have hm := threadWait_moves (A := fun l => l = .block k.current q) rfl h
  obtain ⟨hlife, hnext, hfreed⟩ := hm.life_eq hp (by rintro l rfl; rfl)
  exact Kernel.ledger_sched hlife hnext hfreed

/-- A thread that has been made is in the ledger. -/
theorem spawn_ledger {l : Life}
    (hlife : s.life = Function.update k.sched.life k.sched.nextThread (some l))
    (hnext : s.nextThread = k.sched.nextThread + 1) (hfreed : s.freed = k.sched.freed) :
    { k with sched := s }.ledger = k.ledger.spawn l := by
  simp [Kernel.ledger, Ledger.spawn, hlife, hnext, hfreed]

/-- An act that may not change the ledger makes no move that does. -/
theorem Act.changesLedger_of_allows {a : Act} {l : Label} (ha : a.changesLedger = false)
    (h : a.Allows memory k l) : l.changesLedger = false := by
  cases l with
  | spawn t =>
    obtain ⟨-, mode, arrival, rfl⟩ := h
    simp [changesLedger] at ha
  | spawnNew t =>
    obtain ⟨-, h⟩ := h
    unfold createsFromJob at h
    split at h <;> simp_all [changesLedger]
  | detach t =>
    rcases h with ⟨-, code, rfl⟩ | ⟨caller, rfl⟩ <;> simp [changesLedger] at ha
  | exit t code =>
    obtain ⟨-, rfl⟩ := h
    simp [changesLedger] at ha
  | free o =>
    simp only [Allows] at h
    unfold frees at h
    split at h <;> simp_all [changesLedger]
  | _ => rfl

/-- Nor does it change the ledger otherwise. -/
theorem Act.ledger_eq {a : Act} (ha : a.changesLedger = false) (hp : Placed [k.current] k.sched)
    (h : a.run memory k = .ok (acts, k')) : k'.ledger = k.ledger := by
  obtain ⟨hlife, hnext, hfreed⟩ :=
    (Act.run_moves h).life_eq hp fun l hl => changesLedger_of_allows ha hl
  have hframe := Act.run_frame h
  have hwork : a.changesWorkqueue = false := by
    unfold changesWorkqueue
    split <;> simp_all [changesLedger]
  have hhist : a.changesHistory = false := by
    unfold changesHistory
    split <;> simp_all [changesLedger]
  obtain ⟨harg, hsched, hjoin, hret⟩ := hframe.history hhist
  dsimp only at hlife hnext hfreed
  simp only [Kernel.ledger, hlife, hnext, hfreed, hframe.workqueue hwork, harg, hsched, hjoin, hret]

/-- A `thread_detach` in the ledger. -/
theorem detach_ledger {t : ThreadId} (h : k.detach t = .ok (acts, k')) :
    ∃ l : Life, k.ledger.life t = some l ∧ 0 < l.refcount ∧ acts = l.destroyActs t ∧
      k'.ledger = k.ledger.detach t l := by
  obtain ⟨th, hth, -, hpos, rfl, rfl⟩ := detach_eq_ok h
  refine ⟨th.life, life_of_threads hth, hpos, rfl, ?_⟩
  simp only [Kernel.ledger, Ledger.detach, life_setThread]
  rfl

/-- The parent has dropped its reference. -/
theorem joined_ledger {child : ThreadId} {l : Life} (h : k'.ledger = k.ledger.detach child l) :
    ({ k' with joined := child :: k'.joined } : Kernel).ledger =
      { k.ledger.detach child l with joined := child :: k.ledger.joined } := by
  have hjoined : k'.joined = k.joined := congrArg Ledger.joined h
  change { k'.ledger with joined := child :: k'.joined } = _
  rw [h, hjoined]
  rfl

/-- The end of `thread_exit` in the ledger. -/
theorem threadExitFinish_life {code : ℤ} (hp : Placed [s.gCurrent] s)
    (h : threadExitFinish code s = .ok s') : ∃ l : Life, s.life s.gCurrent = some l ∧
      s'.life = Function.update s.life s.gCurrent (some { l with exitcode := code, exited := true }) ∧
      s'.nextThread = s.nextThread ∧ s'.freed = s.freed := by
  simp only [threadExitFinish, bind_eq_ok, Sched.deref_eq_ok, Sched.derefProcess_eq_ok] at h
  obtain ⟨th, ⟨hth, -⟩, p, -, h⟩ := h
  -- what follows the stores wakes the joiners and dispatches the next thread
  have hrest : ∀ s₁, Placed [] s₁ → (if th.refcount > 0 then (do
      let s ← threadWakeup (.thread s.gCurrent) s₁
      threadSchedule s) else threadSchedule s₁) = .ok s' →
      s'.life = s₁.life ∧ s'.nextThread = s₁.nextThread ∧ s'.freed = s₁.freed := by
    intro s₁ hp₁ h
    have hm : Moves (fun l => l = .wake (.thread s.gCurrent)) (none, s₁) (some s'.gCurrent, s') := by
      split at h
      · obtain ⟨s₂, h₂, h⟩ := bind_eq_ok.mp h
        refine .trans ?_ (threadSchedule_moves h)
        exact (threadWakeup_moves (A := fun l => l = .wake (.thread s.gCurrent)) rfl h₂).1
      · exact threadSchedule_moves h
    exact hm.life_eq hp₁ (by rintro l rfl; rfl)
  obtain ⟨hlife, hnext, hfreed⟩ := hrest _ (Placed.leave hp rfl) h
  refine ⟨th.life, life_of_threads hth, ?_, hnext, hfreed⟩
  rw [hlife, life_setThread]
  rfl

/-- No function stores `THREAD_KILLED`. -/
theorem Marked.ne_killed {t : ThreadId} {th : Thread} (hm : Marked (some k.current) k.sched)
    (hp : Placed [k.current] k.sched) (hth : k.sched.threads t = some th) :
    th.state ≠ .killed := by
  intro hkill
  -- such a thread would be on the CPU or in a queue, and its state would say so
  rcases hp.somewhere t th hth (by simp [hkill]) with hc | ⟨q, hq⟩
  · have hrun := hm.cpu t th (by rw [List.mem_singleton.mp hc]) hth
    simp [hkill] at hrun
  · have hmark := hm.queue q t th hq hth
    cases q <;> simp [hkill, QueueId.mark] at hmark

/-- So a thread that has ended has exited. -/
theorem Marked.exited_of_ended {t : ThreadId} {th : Thread}
    (hm : Marked (some k.current) k.sched) (hp : Placed [k.current] k.sched)
    (hth : k.sched.threads t = some th) (hend : th.state = .exited ∨ th.state = .killed) :
    th.life.exited = true := by
  rcases hend with hexit | hkill
  · simp [Thread.life, hexit]
  · exact absurd hkill (hm.ne_killed hp hth)

/-- An object is given back, and sleepers are woken. -/
theorem free_ledger {q : WaitQueue} {o : Object} (hp : Placed [k.current] k.sched)
    (h : threadWakeup q (k.sched.free o) = .ok s) :
    ({ k with sched := s } : Kernel).ledger = { k.ledger with freed := o :: k.ledger.freed } := by
  have hm := (threadWakeup_moves (A := fun l => l = .wake q) (x := some k.current) rfl h).1
  have hp' : Placed [k.current] (k.sched.free o) := hp.congr rfl rfl rfl
  obtain ⟨hlife, hnext, hfreed⟩ := hm.life_eq hp' (by rintro l rfl; rfl)
  dsimp only at hlife hnext hfreed
  simp only [Kernel.ledger, hlife, hnext, hfreed]
  rfl

theorem ThreadStep.ledger {a : ThreadAct} (h : ThreadStep memory k a acts k')
    (ha : (Act.thread a).changesLedger = true) (hp : Placed [k.current] k.sched)
    (hm : Marked (some k.current) k.sched) :
    LedgerStep k.current k.ledger (.thread a) acts k'.ledger := by
  cases h with
  | joinAsleep hth hparent hruns hs =>
    rw [sleep_ledger hp hs]
    exact .again rfl
  | create hs =>
    obtain ⟨rfl, l, hnew, hlife, hnext, hfreed⟩ := threadCreate_life hs
    rw [spawn_ledger hlife hnext hfreed]
    exact .create hnew
  | createFromJob hj =>
    cases hj with
    | made hs =>
      obtain ⟨rfl, l, hnew, -, hlife, hnext, hfreed⟩ := threadCreateFromJob_life hs
      rw [spawn_ledger hlife hnext hfreed]
      exact .createFromJob hnew
    | _ => simp [Act.changesLedger] at ha
  | exit hd =>
    obtain ⟨l, hl, hpos, rfl, hl'⟩ := detach_ledger hd
    rw [hl']
    exact .exit hl hpos
  | @exitFinish code s hs =>
    obtain ⟨l, hl, hlife, hnext, hfreed⟩ := threadExitFinish_life hp hs
    have hexit : ({ k with sched := s } : Kernel).ledger = { k.ledger with
        life := Function.update k.ledger.life k.current
          (some { l with exitcode := code, exited := true }) } := by
      simp [Kernel.ledger, hlife, hnext, hfreed]
    rw [hexit]
    exact .exitFinish hl
  | threadJoin hth hparent hend hd =>
    obtain ⟨l, hl, hpos, rfl, hl'⟩ := detach_ledger hd
    obtain rfl := Option.some.inj ((life_of_threads hth).symm.trans hl)
    rw [joined_ledger hl']
    exact .threadJoin hl hparent (hm.exited_of_ended hp hth hend) hpos
  | waitForChild hth hparent hend hd =>
    obtain ⟨l, hl, hpos, rfl, hl'⟩ := detach_ledger hd
    obtain rfl := Option.some.inj ((life_of_threads hth).symm.trans hl)
    rw [joined_ledger hl']
    exact .waitForChildren hl hparent (hm.exited_of_ended hp hth hend) hpos
  | joinReturn => exact .joinReturn
  | _ => simp [Act.changesLedger] at ha

theorem WorkStep.ledger {a : WorkAct} (h : WorkStep memory k a acts k')
    (ha : (Act.work a).changesLedger = true) (hp : Placed [k.current] k.sched)
    (hm : Marked (some k.current) k.sched) :
    LedgerStep k.current k.ledger (.work a) acts k'.ledger := by
  cases h with
  | @link item iflag s hs =>
    obtain ⟨t, rest, th, hq, hth, -, -, rfl⟩ := threadWakeupOne_eq_ok.mp hs
    have hm := Moves.labelled (A := fun l => l = .wake .work) rfl
      (Move.wake (x := some k.current) hq hth)
    obtain ⟨hlife, hnext, hfreed⟩ := hm.life_eq hp (by rintro l rfl; rfl)
    dsimp only at hlife hnext hfreed
    have hlink := @LedgerStep.link k.current k.ledger item iflag
    simpa only [Kernel.ledger, hlife, hnext, hfreed] using hlink
  | loopAsleep hempty hs =>
    rw [sleep_ledger hp hs]
    exact .again rfl
  | loop hitem => exact .loop hitem
  | destroyProcess hs =>
    simp only [threadDestroyProcess, bind_eq_ok, Sched.deref_eq_ok, require_eq_ok] at hs
    -- `hend` is the assertion of `thread_destroy`
    obtain ⟨th, ⟨hth, -⟩, -, hend, hs⟩ := hs
    rw [free_ledger hp hs]
    exact .destroyProcess (life_of_threads hth) (hm.exited_of_ended hp hth hend)
  | destroyStack hs =>
    obtain ⟨_, -, hs⟩ := bind_eq_ok.mp hs
    rw [free_ledger hp hs]
    exact .destroyStack
  | destroyThread hs =>
    rw [free_ledger hp hs]
    exact .destroyThread
  | _ => simp [Act.changesLedger] at ha

/-- What an act of the kernel does to the ledger. -/
theorem Act.run_ledger {a : Act} (hp : Placed [k.current] k.sched)
    (hm : Marked (some k.current) k.sched) (h : a.run memory k = .ok (acts, k')) :
    LedgerStep k.current k.ledger a acts k'.ledger := by
  cases ha : a.changesLedger with
  | false =>
    rw [ledger_eq ha hp h]
    exact .quiet ha
  | true =>
  cases a with
  | thread a => exact (ThreadAct.run_step h).ledger ha hp hm
  | work a => exact (WorkAct.run_step h).ledger ha hp hm
  | simulation a =>
    cases SimulationAct.run_step h with
    | submit hj =>
      cases hj with
      | made hs =>
        obtain ⟨rfl, l, hnew, hparent, hlife, hnext, hfreed⟩ := threadCreateFromJob_life hs
        rw [spawn_ledger hlife hnext hfreed]
        exact .longTermScheduler hnew (hparent rfl)
      | _ => simp [changesLedger] at ha
    | _ => simp [changesLedger] at ha
  | keyboard a => simp [changesLedger] at ha
  | synch a => simp [changesLedger] at ha

end Run

namespace Machine

variable {m m' : Machine} {e : Event}

/-- An interrupt leaves the ledger alone. -/
theorem ledger_of_interrupt (hr : Reachable Step boot m) (hs : m.Step e m') (he : e.IsInterrupt) :
    m'.kernel.ledger = m.kernel.ledger := by
  have hA : ∀ l, m.Allows e l → l.changesLedger = false := by
    intro l hl
    cases e with
    | call a | resume memory => exact he.elim
    | timer => rcases hl with ⟨-, ⟨rfl, -⟩ | ⟨b, rfl⟩⟩ <;> rfl
    | keyboard keycode => rcases hl with rfl | ⟨rfl, -⟩ | ⟨b, rfl⟩ <;> rfl
  obtain ⟨hlife, hnext, hfreed⟩ := (exec_moves hs.2).life_eq (reachable_placed hr) hA
  dsimp only at hlife hnext hfreed
  obtain ⟨-, -, hwork, harg, hsched, hjoin, hret⟩ := exec_interrupt hs.2 he
  simp only [Kernel.ledger, hlife, hnext, hfreed, hwork, harg, hsched, hjoin, hret]

/-- What an event does to the ledger and to the acts of the current thread. -/
theorem Step.ledger (hr : Reachable Step boot m) (hs : m.Step e m') :
    (e.IsInterrupt ∧ m'.acts = m.acts ∧ m'.kernel.ledger = m.kernel.ledger) ∨
    (∃ a, e = .call a ∧ m.acts m.current = [] ∧ a.isCall = true ∧ m'.acts m.current = [a] ∧
      m'.kernel = m.kernel) ∨
    ∃ memory a rest acts, e = .resume memory ∧ m.acts m.current = a :: rest ∧
      a.run memory m.kernel = .ok (acts, m'.kernel) ∧ m'.acts m.current = acts ++ rest ∧
      LedgerStep m.current m.kernel.ledger a acts m'.kernel.ledger := by
  rcases step_cases hs with ⟨he, hacts⟩ | ⟨a, rfl, hnil, hcall, rfl⟩ |
    ⟨memory, a, rest, acts, k', rfl, hacts, hk, rfl⟩
  · exact .inl ⟨he, hacts, ledger_of_interrupt hr hs he⟩
  · exact .inr (.inl ⟨a, rfl, hnil, hcall, Function.update_self .., rfl⟩)
  · exact .inr (.inr ⟨memory, a, rest, acts, rfl, hacts, hk, Function.update_self ..,
      Act.run_ledger (reachable_placed hr) (reachable_marked hr) hk⟩)

end Machine

end GeekOS
