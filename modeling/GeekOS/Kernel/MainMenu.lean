import Mathlib.Algebra.Order.BigOperators.Group.List
import Mathlib.Algebra.Order.Ring.Nat
import GeekOS.Library.Progress
import GeekOS.Thread.Counts
import GeekOS.Kernel.Control
import GeekOS.Kernel.Reachable

/-!
# The main menu

The functions of `menu.c`, as functions of the keys that the main thread takes from the key buffer,
the tables of `simulation.c`, and the loop of `geekos_main` that shows the menu as long as not too
many threads have been counted.

* `waitForChoice_eq_some`: what a loop of the menu reads;
* `mainMenu_jobs`: how many jobs there are in a simulation that can be chosen;
* `threads_of_run`: how many threads there can ever be, and how many simulations.
-/

namespace GeekOS

open Result TransitionSystem

/-! ## The tables -/

/-- `RR_QUANTUM1`. -/
def rrQuantum1 : ℕ := 8
/-- `RR_QUANTUM2`. -/
def rrQuantum2 : ℕ := 32
/-- `RR_QUANTUM3`. -/
def rrQuantum3 : ℕ := 128

/-- `MAX_THREADS`. -/
def maxThreads : ℕ := 24

/-- `SCHEDULER_SIM_LENGTH`. -/
def schedulerSimLength : ℕ := 6

/-- `g_scheduler_sim`, without the code of the jobs. -/
def gSchedulerSim : List (List Job) :=
  [[⟨10, 4⟩, ⟨10, 3⟩, ⟨10, 2⟩, ⟨10, 1⟩, ⟨10, 5⟩, ⟨10, 6⟩],
   [⟨30, 2⟩, ⟨30, 3⟩, ⟨30, 5⟩, ⟨30, 1⟩, ⟨30, 6⟩, ⟨30, 4⟩],
   [⟨20, 1⟩, ⟨10, 6⟩, ⟨30, 2⟩, ⟨10, 5⟩, ⟨30, 4⟩, ⟨20, 3⟩],
   [⟨10, 6⟩, ⟨20, 5⟩, ⟨30, 4⟩, ⟨10, 3⟩, ⟨20, 2⟩, ⟨30, 1⟩]]

/-- `g_preemption_toggle_sim`. -/
def gPreemptionToggleSim : List Job := [⟨10, 1⟩, ⟨10, 1⟩, ⟨10, 1⟩]

/-- `g_peterson_sim`. -/
def gPetersonSim : List Job := [⟨10, 1⟩, ⟨10, 1⟩]

/-- `g_mutex_sim`. -/
def gMutexSim : List Job := [⟨10, 1⟩, ⟨10, 1⟩, ⟨10, 1⟩, ⟨10, 1⟩, ⟨10, 1⟩]

/-- `g_synch_sim`. -/
def gSynchSim : List (List Job) := [gPreemptionToggleSim, gPetersonSim, gMutexSim]

/-- `g_synch_sim_length`. -/
def gSynchSimLength : List ℕ := [3, 2, 5]

/-! ## The menu -/

/-- The loop `do { keycode = wait_for_key(); } while (...)` of a prompt with `n` numbers to choose
from, and what its caller makes of the key: `keycode - '1'`. There is no result as long as no key
has come that the loop lets through. -/
def waitForChoice (n : ℕ) : List Keycode → Option (Fin n × List Keycode)
  | [] => none
  | keycode :: keys =>
      if h : '1'.toNat ≤ keycode ∧ keycode < '1'.toNat + n then
        some (⟨keycode - '1'.toNat, Nat.sub_lt_left_of_lt_add h.1 h.2⟩, keys)
      else waitForChoice n keys

/-- What a menu chooses: `g_scheduler`, `g_quantum` if it is stored, and the first `length` entries
of an array of jobs. -/
structure Menu where
  scheduler : SchedulerKind
  quantum : Option ℕ
  simulation : List Job
  length : ℕ
  deriving DecidableEq, Repr

/-- `get_synch_simulation`. -/
def getSynchSimulation (keys : List Keycode) : Option (Menu × List Keycode) := do
  let (i, keys) ← waitForChoice 3 keys
  pure ({ scheduler := .rr, quantum := some 24, simulation := gSynchSim.get i,
          length := gSynchSimLength.get i }, keys)

/-- `get_scheduler`. -/
def getScheduler (keys : List Keycode) : Option (SchedulerKind × List Keycode) := do
  let (i, keys) ← waitForChoice 4 keys
  match i with
  | 0 => pure (.fcfs, keys)
  | 1 => pure (.sjf, keys)
  | 2 => pure (.priority, keys)
  | 3 => pure (.rr, keys)

/-- `get_quantum`. -/
def getQuantum (keys : List Keycode) : Option (ℕ × List Keycode) := do
  let (i, keys) ← waitForChoice 3 keys
  match i with
  | 0 => pure (rrQuantum1, keys)
  | 1 => pure (rrQuantum2, keys)
  | 2 => pure (rrQuantum3, keys)

/-- `get_scheduler_simulation`. -/
def getSchedulerSimulation (keys : List Keycode) : Option ((List Job × ℕ) × List Keycode) := do
  let (i, keys) ← waitForChoice 4 keys
  pure ((gSchedulerSim.get i, schedulerSimLength), keys)

/-- `main_menu`, up to its call of `run_simulation`. -/
def mainMenu (keys : List Keycode) : Option (Menu × List Keycode) := do
  let (i, keys) ← waitForChoice 2 keys
  match i with
  | 0 => getSynchSimulation keys
  | 1 =>
      let (scheduler, keys) ← getScheduler keys
      -- the quantum is asked for under RR only
      let (quantum, keys) ←
        (if scheduler = .rr then (getQuantum keys).map fun r => (some r.1, r.2)
          else some (none, keys))
      let ((simulation, length), keys) ← getSchedulerSimulation keys
      pure ({ scheduler, quantum, simulation, length }, keys)

/-- The jobs that `run_simulation` reads. -/
def Menu.jobs (menu : Menu) : List Job := menu.simulation.take menu.length

/-- Synchronization, and the players of Peterson's solution, with a few other keys in between. -/
example : (mainMenu ("q1x92".toList.map Char.toNat)).map (fun r => r.1.jobs) =
    some gPetersonSim := by decide

section Menu

/-- `g_synch_sim_length` says how many jobs there are in `g_synch_sim`. -/
theorem gSynchSim_length (i : Fin 3) :
    gSynchSimLength.get i = (gSynchSim.get i).length ∧ 2 ≤ gSynchSimLength.get i ∧
      gSynchSimLength.get i ≤ schedulerSimLength := by
  match i with
  | 0 | 1 | 2 => decide

/-- `SCHEDULER_SIM_LENGTH` says how many there are in `g_scheduler_sim`. -/
theorem gSchedulerSim_length (i : Fin 4) :
    schedulerSimLength = (gSchedulerSim.get i).length := by
  match i with
  | 0 | 1 | 2 | 3 => decide

variable {n : ℕ} {keys rest : List Keycode} {menu : Menu}

/-- A loop of the menu reads up to the first key that it lets through. -/
theorem waitForChoice_eq_some {i : Fin n} : waitForChoice n keys = some (i, rest) ↔
    ∃ skipped, keys = skipped ++ ('1'.toNat + i) :: rest ∧
      ∀ keycode ∈ skipped, ¬('1'.toNat ≤ keycode ∧ keycode < '1'.toNat + n) := by
  induction keys with
  | nil => simp [waitForChoice]
  | cons keycode keys ih =>
    rw [waitForChoice]
    split
    next h =>
      constructor
      · intro heq
        obtain ⟨rfl, rfl⟩ := Prod.mk.inj (Option.some.inj heq)
        refine ⟨[], ?_, by simp⟩
        rw [List.nil_append, Nat.add_sub_cancel' h.1]
      · rintro ⟨skipped, heq, hskipped⟩
        cases skipped with
        | nil =>
          obtain ⟨rfl, rfl⟩ := List.cons.inj heq
          simp
        | cons skip skipped =>
          obtain ⟨rfl, -⟩ := List.cons.inj heq
          exact absurd h (hskipped _ List.mem_cons_self)
    next h =>
      rw [ih]
      constructor
      · rintro ⟨skipped, rfl, hskipped⟩
        exact ⟨keycode :: skipped, rfl, List.forall_mem_cons.mpr ⟨h, hskipped⟩⟩
      · rintro ⟨skipped, heq, hskipped⟩
        cases skipped with
        | nil =>
          obtain ⟨rfl, rfl⟩ := List.cons.inj heq
          exact absurd ⟨Nat.le_add_right _ _, Nat.add_lt_add_left i.isLt _⟩ h
        | cons skip skipped =>
          obtain ⟨rfl, rfl⟩ := List.cons.inj heq
          exact ⟨skipped, rfl, fun k hk => hskipped k (List.mem_cons_of_mem _ hk)⟩

/-- The length that goes with each array of jobs is its own. -/
theorem mainMenu_length (h : mainMenu keys = some (menu, rest)) :
    menu.length = menu.simulation.length ∧ 2 ≤ menu.length ∧ menu.length ≤ schedulerSimLength := by
  simp only [mainMenu, Option.bind_eq_bind, Option.bind_eq_some_iff, Prod.exists] at h
  obtain ⟨i, keys₁, -, h⟩ := h
  split at h
  · simp only [getSynchSimulation, Option.bind_eq_bind, Option.bind_eq_some_iff, Prod.exists,
      Option.pure_def, Option.some.injEq, Prod.mk.injEq] at h
    obtain ⟨j, keys₂, -, rfl, rfl⟩ := h
    exact gSynchSim_length j
  · simp only [getSchedulerSimulation, Option.bind_eq_bind, Option.bind_eq_some_iff, Prod.exists,
      Option.pure_def, Option.some.injEq, Prod.mk.injEq] at h
    obtain ⟨scheduler, keys₂, -, quantum, keys₃, -, _, _, keys₄, ⟨j, _, -, ⟨rfl, rfl⟩, rfl⟩,
      rfl, rfl⟩ := h
    have htwo : 2 ≤ schedulerSimLength := by decide
    exact ⟨gSchedulerSim_length j, htwo, le_rfl⟩

/-- So a simulation gets all of its jobs. -/
theorem mainMenu_jobs (h : mainMenu keys = some (menu, rest)) :
    2 ≤ menu.jobs.length ∧ menu.jobs.length ≤ schedulerSimLength := by
  obtain ⟨hlength, htwo, hmax⟩ := mainMenu_length h
  rw [Menu.jobs, List.length_take, hlength, min_self]
  rw [hlength] at htwo hmax
  exact ⟨htwo, hmax⟩

end Menu

/-! ## The loop of `geekos_main` -/

/-- The act makes a thread other than for a simulation. -/
def Act.creates : Act → Bool
  | .thread (.create _ _) | .thread (.createArrival _) | .thread (.createRun _ _)
  | .thread (.createGenPid _) | .thread (.createPid _ _) | .thread (.createPriority _)
  | .thread (.createFromJob _ _ _) => true
  | _ => false

/-- How many jobs still have no thread. -/
def Act.jobsLeft : Act → ℕ
  | .simulation (.runSimulation jobs) | .simulation (.longTermScheduler jobs _ _) => jobs.length
  | _ => 0

/-- The threads that `gen_pid` has counted and `thread_make_new` has not put in the queue of new
threads yet. -/
def Act.counted : Act → ℕ
  | .simulation (.longTermScheduler (_ :: _) _ (.priority _))
  | .simulation (.longTermScheduler (_ :: _) _ (.makeNew _ _)) => 1
  | _ => 0

theorem Act.counted_le (a : Act) : a.counted ≤ 1 ∧ a.counted ≤ a.jobsLeft := by
  unfold Act.counted
  split <;> simp [Act.jobsLeft]

section Acts

variable {memory : Memory} {k k' : Kernel} {acts : List Act} {a : Act}

theorem detach_counts {t : ThreadId} (h : k.detach t = .ok (acts, k')) :
    k'.sched.counts = k.sched.counts := by
  obtain ⟨th, -, -, -, -, rfl⟩ := detach_eq_ok h
  rfl

theorem ThreadStep.counts {a : ThreadAct} (h : ThreadStep memory k a acts k')
    (ha : (Act.thread a).creates = false) : k'.sched.counts = k.sched.counts := by
  cases h with
  | idle hs | yield hs | waitForChildren hs => exact threadYield_counts hs
  | createAsleep | createAlloc | createArrival | create | createGenPid | createPid | createPriority
  | createFromJob =>
    simp [Act.creates] at ha
  | merge hs => exact mergeNewWithRunnable_counts hs
  | wait hs => exact threadWait_counts hs
  | joinAsleep hth hparent hruns hs => exact threadWait_counts hs
  | wakeup hs => exact threadWakeup_counts hs
  | wakeupOne hs => exact threadWakeupOne_counts hs
  | exit hd => exact (detach_counts hd).trans rfl
  | exitFinish hs => exact threadExitFinish_counts hs
  | threadJoin hth hparent hend hd | waitForChild hth hparent hend hd =>
    have hdetach := detach_counts hd
    exact hdetach
  | join | joinReturn | waitForNone => rfl

theorem WorkStep.counts {a : WorkAct} (h : WorkStep memory k a acts k') :
    k'.sched.counts = k.sched.counts := by
  cases h with
  | scheduleAsleep hmemory hs => exact threadWait_counts hs
  | loopAsleep hempty hs => exact threadWait_counts hs
  | link hs => exact threadWakeupOne_counts hs
  | destroyProcess hs =>
    simp only [threadDestroyProcess, bind_eq_ok] at hs
    obtain ⟨_, -, _, -, hs⟩ := hs
    exact memFree_counts hs
  | destroyStack hs =>
    simp only [threadDestroyStack, bind_eq_ok] at hs
    obtain ⟨_, -, hs⟩ := hs
    exact memFreeFrame_counts hs
  | destroyThread hs => exact memFree_counts hs
  | ramdiskHandleRequest hs | freeItem hs => exact threadWakeup_counts hs
  | schedule | loop => rfl

theorem KeyboardStep.counts {a : KeyboardAct} (h : KeyboardStep k a acts k') :
    k'.sched.counts = k.sched.counts := by
  cases h with
  | waitForKeyAsleep hempty hs => exact threadWait_counts hs
  | readKey | waitForKey => rfl

theorem SynchStep.counts {a : SynchAct} (h : SynchStep k a acts k') :
    k'.sched.counts = k.sched.counts := by
  cases h with
  | lockPark hs | condPark hs => exact threadPark_counts hs
  | unlockWake hs | condSignal hs => exact threadWakeupOne_counts hs
  | condBroadcast hs => exact threadWakeup_counts hs
  | _ => rfl

/-- Threads are made by those that were making them. -/
theorem Act.LeadsTo.creates {b : Act} (h : a.LeadsTo k b) (ha : a.creates = false) :
    b.creates = false := by
  cases h with
  | create | createArrival | createRun | createGenPid | createPid | createPriority
  | createFromJob =>
    simp [Act.creates] at ha
  | _ => rfl

theorem Act.LeadsTo.jobsLeft {b : Act} (h : a.LeadsTo k b) (ha : a.jobsLeft = 0) :
    b.jobsLeft = 0 := by
  cases h with
  | runSimulation | longTermSchedulerAgain => exact ha
  | longTermScheduler => simp [Act.jobsLeft] at ha
  | _ => rfl

/-- Of the acts that follow another, the first one submits the jobs. -/
theorem Act.Follows.jobsLeft_tail {b : Act} (h : a.Follows k acts) (hb : b ∈ acts.tail) :
    b.jobsLeft = 0 := by
  have hleads := h.leadsTo (List.mem_of_mem_tail hb)
  cases hleads with
  | runSimulation =>
    obtain rfl := h
    simp at hb
  | longTermSchedulerAgain | longTermScheduler =>
    obtain ⟨-, rfl⟩ | ⟨job, rest, r, -, -, rfl⟩ := h <;> simp at hb
  | _ => rfl

/-- A statement of `thread_create_from_job` keeps the numbers, `gen_pid` counts a thread, and
`thread_make_new` makes one. -/
theorem JobStep.counts {job : Job} {mode : ThreadMode} {s s' : Sched} {c : JobCreation}
    {r : JobCreation ⊕ ThreadId} (h : JobStep memory job mode s c r s') :
    (∃ a, c = .alloc a ∧ ((∃ a', r = .inl (.alloc a')) ∨ r = .inl .pid) ∧ s'.counts = s.counts) ∨
    (c = .pid ∧ (∃ pid, r = .inl (.priority pid)) ∧
      s'.counts = (s.pid + 1, s.pid + 1, s.made)) ∨
    (∃ pid, c = .priority pid ∧ (∃ priority, r = .inl (.makeNew pid priority)) ∧ s' = s) ∨
    ∃ pid priority t, c = .makeNew pid priority ∧ r = .inr t ∧
      s'.counts = (s.pid, s.gNumThreads, s.made + 1) := by
  cases h with
  | @asleep a q s' hq hs => exact .inl ⟨a, rfl, .inl ⟨_, rfl⟩, threadWait_counts hs⟩
  | @alloc a hq =>
    refine .inl ⟨a, rfl, ?_, rfl⟩
    cases a.next with
    | none => exact .inr rfl
    | some a' => exact .inl ⟨a', rfl⟩
  | pid => exact .inr (.inl ⟨rfl, ⟨_, rfl⟩, rfl⟩)
  | priority pid => exact .inr (.inr (.inl ⟨pid, rfl, ⟨_, rfl⟩, rfl⟩))
  | @made pid priority t s' hs =>
    exact .inr (.inr (.inr ⟨pid, priority, t, rfl, rfl, threadCreateFromJob_counts hs⟩))

theorem Act.jobsLeft_follows (h : a.run memory k = .ok (acts, k')) (ha : a.jobsLeft = 0) :
    (acts.map Act.jobsLeft).sum = 0 := by
  refine List.sum_eq_zero_iff_forall_eq_nat.mpr fun n hn => ?_
  obtain ⟨b, hb, rfl⟩ := List.mem_map.mp hn
  exact ((Act.run_follows h).leadsTo hb).jobsLeft ha

/-- The acts count no more threads than they have jobs left. -/
theorem Act.sum_counted_le (acts : List Act) :
    (acts.map Act.counted).sum ≤ (acts.map Act.jobsLeft).sum :=
  List.sum_le_sum fun a _ => a.counted_le.2

theorem SimulationStep.counts {a : SimulationAct} (h : SimulationStep memory k a acts k')
    (hpid : k.sched.pid = k.sched.gNumThreads) :
    k'.sched.pid = k'.sched.gNumThreads ∧
      k'.sched.made + (acts.map Act.jobsLeft).sum =
        k.sched.made + (Act.simulation a).jobsLeft ∧
      k'.sched.gNumThreads + k.sched.made + (Act.simulation a).counted =
        k.sched.gNumThreads + k'.sched.made + (acts.map Act.counted).sum := by
  cases h with
  | submit hj =>
    rcases hj.counts with ⟨a, rfl, hr, hcounts⟩ | ⟨rfl, ⟨pid, rfl⟩, hcounts⟩ |
      ⟨pid, rfl, ⟨priority, rfl⟩, rfl⟩ | ⟨pid, priority, t, rfl, rfl, hcounts⟩
    · obtain ⟨hp, hn, ht⟩ := counts_eq_iff.mp hcounts
      rcases hr with ⟨a', rfl⟩ | rfl <;>
        simp [Act.jobsLeft, Act.counted, hp, hn, ht, hpid]
    · obtain ⟨hp, hn, ht⟩ := counts_eq_iff.mp hcounts
      simp [Act.jobsLeft, Act.counted, hp, hn, ht, hpid]
      omega
    · simp [Act.jobsLeft, Act.counted, hpid]
    -- a thread more, and a job less
    · obtain ⟨hp, hn, ht⟩ := counts_eq_iff.mp hcounts
      refine ⟨by rw [hp, hn, hpid], by simp [Act.jobsLeft, ht]; omega, ?_⟩
      simp [Act.counted, hn, ht]
      omega
  | firstResponse hs =>
    obtain ⟨hp, hn, ht⟩ := counts_eq_iff.mp (firstResponse_counts hs)
    simp [Act.jobsLeft, Act.counted, hp, hn, ht, hpid]
  | _ => simp [Act.jobsLeft, Act.counted, Sched.made, hpid]

/-- Between the threads that were made, those that were counted and the jobs that still have no
thread nothing is lost. -/
theorem Act.run_counts (h : a.run memory k = .ok (acts, k')) (ha : a.creates = false)
    (hpid : k.sched.pid = k.sched.gNumThreads) :
    k'.sched.pid = k'.sched.gNumThreads ∧
      k'.sched.made + (acts.map Act.jobsLeft).sum = k.sched.made + a.jobsLeft ∧
      k'.sched.gNumThreads + k.sched.made + a.counted =
        k.sched.gNumThreads + k'.sched.made + (acts.map Act.counted).sum := by
  have hsame (hleft : a.jobsLeft = 0) (hs : k'.sched.counts = k.sched.counts) :
      k'.sched.pid = k'.sched.gNumThreads ∧
        k'.sched.made + (acts.map Act.jobsLeft).sum = k.sched.made + a.jobsLeft ∧
        k'.sched.gNumThreads + k.sched.made + a.counted =
          k.sched.gNumThreads + k'.sched.made + (acts.map Act.counted).sum := by
    obtain ⟨hp, hn, ht⟩ := counts_eq_iff.mp hs
    have hacts := Act.jobsLeft_follows h hleft
    have hcounted := Act.sum_counted_le acts
    have ha := a.counted_le.2
    exact ⟨by rw [hp, hn, hpid], by omega, by omega⟩
  cases a with
  | thread a => exact hsame rfl ((ThreadAct.run_step h).counts ha)
  | work a => exact hsame rfl (WorkAct.run_step h).counts
  | keyboard a => exact hsame rfl (KeyboardAct.run_step h).counts
  | synch a => exact hsame rfl (SynchAct.run_step h).counts
  | simulation a => exact (SimulationAct.run_step h).counts hpid

end Acts

namespace Machine

/-- The key that the current thread takes in `wait_for_key`, if it takes one. -/
def takes (m : Machine) : Event → Option Keycode
  | .resume _ =>
      match m.acts m.current, m.kernel.keyQueue with
      | .keyboard (.waitForKey _) :: _, keycode :: _ => some keycode
      | _, _ => none
  | _ => none

end Machine

/-- The keys that the main thread has taken from the key buffer on a run. -/
def mainKeys (tr : List (Machine × Event)) : List Keycode :=
  (tr.filter fun p => p.1.current = mainThread).filterMap fun p => p.1.takes p.2

namespace Machine

/-- What threads may call when the main thread has taken these keys: the main thread, in the loop of
`geekos_main`, runs a simulation that `main_menu` has read from the last keys, and nothing else makes
threads. -/
def Permits (m : Machine) (keys : List Keycode) : Event → Prop
  | .call (.simulation (.runSimulation jobs)) =>
      m.current = mainThread ∧ m.kernel.sched.gNumThreads < maxThreads ∧
        ∃ read ∈ keys.tails, (mainMenu read).map (fun r => (r.1.jobs, r.2)) = some (jobs, [])
  | .call a => a.creates = false
  | _ => True

instance (m : Machine) (keys : List Keycode) : (e : Event) → Decidable (m.Permits keys e)
  | .call (.simulation (.runSimulation _)) =>
      inferInstanceAs (Decidable (_ ∧ _ ∧ ∃ read ∈ keys.tails, Option.map _ (mainMenu read) = _))
  | .call (.simulation (.setScheduler _ _)) | .call (.simulation (.longTermScheduler _ _ _))
  | .call (.simulation .simulationEnd) | .call (.simulation .firstResponse)
  | .call (.simulation (.busyWait _)) | .call (.simulation (.busyWaiting _ _))
  | .call (.thread _) | .call (.work _) | .call (.keyboard _) | .call (.synch _) =>
      inferInstanceAs (Decidable (Act.creates _ = false))
  | .resume _ | .timer | .keyboard _ => inferInstanceAs (Decidable True)

/-- The number of threads when those jobs have got threads for which `run_simulation` has been
called. -/
def booked (m : Machine) : ℕ :=
  m.kernel.sched.made + ((m.acts mainThread).map Act.jobsLeft).sum

/-- The main thread is between its call of `gen_pid` and that of `thread_make_new`. -/
def Counting (m : Machine) : Prop := ((m.acts mainThread).head?.elim 0 Act.counted) = 1

instance (m : Machine) : Decidable m.Counting := inferInstanceAs (Decidable (_ = _))

/-- Threads are made in `geekos_main` only, as long as there are not too many. -/
structure Booked (m : Machine) : Prop where
  pid : m.kernel.sched.pid = m.kernel.sched.gNumThreads
  counted : m.kernel.sched.gNumThreads =
    m.kernel.sched.made + ((m.acts mainThread).map Act.counted).sum
  creates : ∀ u, ∀ a ∈ m.acts u, a.creates = false
  others : ∀ u, u ≠ mainThread → ∀ a ∈ m.acts u, a.jobsLeft = 0
  /-- Only the act that comes next may be about to make a thread. -/
  tail : ∀ a ∈ (m.acts mainThread).tail, a.jobsLeft = 0
  bound : m.booked < maxThreads + schedulerSimLength

/-- A simulation is started. -/
def Starts (_ : Machine) : Event → Bool
  | .call (.simulation (.runSimulation _)) => true
  | _ => false

variable {m m' : Machine} {e : Event} {a : Act} {keys : List Keycode}

theorem exec_interrupt_counts (h : m.exec e = .ok m') (he : e.IsInterrupt) :
    m'.kernel.sched.counts = m.kernel.sched.counts := by
  cases e with
  | call a => exact he.elim
  | resume memory => exact he.elim
  | timer =>
    obtain ⟨s₁, h₁, h⟩ := bind_eq_ok.mp h
    obtain ⟨s₂, h₂, h⟩ := bind_eq_ok.mp h
    obtain rfl := pure_eq_ok.mp h
    exact (intHandleReturn_counts h₂).trans (timerProcessTick_counts h₁)
  | keyboard keycode =>
    obtain ⟨k, hk, h⟩ := bind_eq_ok.mp h
    obtain ⟨s, hs, h⟩ := bind_eq_ok.mp h
    obtain rfl := pure_eq_ok.mp h
    have hreturn := intHandleReturn_counts hs
    rcases keyboardIntHandler_eq_ok.mp hk with ⟨-, rfl⟩ | ⟨c, s₁, -, h₁, rfl⟩
    · exact hreturn
    · have hwoken := threadWakeup_counts h₁
      exact hreturn.trans hwoken

/-- A function that may be called makes no threads but those of a simulation. -/
theorem Permits.call (hp : m.Permits keys (.call a)) (hcall : a.isCall = true) :
    a.creates = false ∧ ((m.Starts (.call a) = false ∧ a.jobsLeft = 0) ∨
      (m.Starts (.call a) = true ∧ m.current = mainThread ∧
        m.kernel.sched.gNumThreads < maxThreads ∧ 2 ≤ a.jobsLeft ∧
        a.jobsLeft ≤ schedulerSimLength)) := by
  cases a with
  | simulation a =>
    cases a with
    | runSimulation jobs =>
      obtain ⟨hmain, hnum, read, -, hread⟩ := hp
      obtain ⟨⟨menu, rest⟩, hmenu, heq⟩ := Option.map_eq_some_iff.mp hread
      obtain ⟨rfl, -⟩ := Prod.mk.inj heq
      exact ⟨rfl, .inr ⟨rfl, hmain, hnum, mainMenu_jobs hmenu⟩⟩
    | longTermScheduler => simp [Act.isCall] at hcall
    | _ => exact ⟨rfl, .inl ⟨rfl, rfl⟩⟩
  | _ => exact ⟨hp, .inl ⟨rfl, rfl⟩⟩

/-- The jobs that are left and the threads that are counted stand with the main thread, in front of
its other acts. -/
theorem Booked.step_acts (hI : m.Booked) (hp : m.Permits keys e) (h : m.Step e m') :
    (∀ u, ∀ a ∈ m'.acts u, a.creates = false) ∧
      (∀ u, u ≠ mainThread → ∀ a ∈ m'.acts u, a.jobsLeft = 0) ∧
      ∀ a ∈ (m'.acts mainThread).tail, a.jobsLeft = 0 := by
  refine ⟨fun u b hb => ?_, fun u hu b hb => ?_, fun b hb => ?_⟩
  · rcases mem_acts_of_step h hb with hb | ⟨-, -, hcall, rfl⟩ |
      ⟨rfl, memory, a, rest, acts, k', -, hacts, hk, -, hb⟩
    · exact hI.creates u b hb
    · exact (hp.call hcall).1
    · exact ((Act.run_follows hk).leadsTo hb).creates
        (hI.creates _ a (hacts ▸ List.mem_cons_self))
  · rcases mem_acts_of_step h hb with hb | ⟨rfl, -, hcall, rfl⟩ |
      ⟨rfl, memory, a, rest, acts, k', -, hacts, hk, -, hb⟩
    · exact hI.others u hu b hb
    · rcases (hp.call hcall).2 with ⟨-, hleft⟩ | ⟨-, hmain, -⟩
      · exact hleft
      · exact absurd hmain hu
    · exact ((Act.run_follows hk).leadsTo hb).jobsLeft
        (hI.others _ hu a (hacts ▸ List.mem_cons_self))
  · by_cases hmain : m.current = mainThread
    · rcases step_cases h with ⟨-, hacts⟩ | ⟨a, rfl, -, -, rfl⟩ |
        ⟨memory, a, rest, acts, k', rfl, hacts, hk, rfl⟩
      · exact hI.tail b (hacts ▸ hb)
      · simp [hmain] at hb
      · -- the rest of the acts was behind the act that was carried out
        have hrest : ∀ b ∈ rest, b.jobsLeft = 0 := fun b hb =>
          hI.tail b (by rw [← hmain, hacts]; exact hb)
        simp only [hmain, Function.update_self] at hb
        cases acts with
        | nil => exact hrest b (List.mem_of_mem_tail hb)
        | cons first acts =>
          rcases List.mem_append.mp hb with hb | hb
          · exact (Act.run_follows hk).jobsLeft_tail hb
          · exact hrest b hb
    · rw [exec_acts_of_ne h.2 (Ne.symm hmain)] at hb
      exact hI.tail b hb

/-- A permitted step books the jobs of a simulation that it starts, and nothing else. -/
theorem Booked.step (hI : m.Booked) (hp : m.Permits keys e) (h : m.Step e m') :
    m'.Booked ∧ ((m.Starts e = false ∧ m'.booked = m.booked) ∨
      (m.Starts e = true ∧ m.booked < maxThreads ∧ m.booked + 2 ≤ m'.booked)) := by
  obtain ⟨hcreates, hothers, htail⟩ := hI.step_acts hp h
  have hcounted := hI.counted
  have hbound := hI.bound
  -- what the event books
  have hbooked : (m'.kernel.sched.pid = m'.kernel.sched.gNumThreads ∧
      m'.kernel.sched.gNumThreads =
        m'.kernel.sched.made + ((m'.acts mainThread).map Act.counted).sum) ∧
      ((m.Starts e = false ∧ m'.booked = m.booked) ∨
        (m.Starts e = true ∧ m.booked < maxThreads ∧ m.booked + 2 ≤ m'.booked ∧
          m'.booked ≤ m.booked + schedulerSimLength)) := by
    rcases step_cases h with ⟨hint, hacts⟩ | ⟨a, rfl, hnil, hcall, rfl⟩ |
      ⟨memory, a, rest, acts, k', rfl, hacts, hk, rfl⟩
    · obtain ⟨hpid, hnum, hmade⟩ := counts_eq_iff.mp (exec_interrupt_counts h.2 hint)
      refine ⟨⟨by rw [hpid, hnum, hI.pid], by rw [hacts, hnum, hmade, hcounted]⟩, .inl ⟨?_, ?_⟩⟩
      · cases e with
        | call a => exact hint.elim
        | _ => rfl
      · rw [booked, booked, hmade, hacts]
    -- a call makes no thread yet, but may bring the jobs of a simulation
    · by_cases hmain : m.current = mainThread
      · rw [hmain] at hnil
        have hzero : a.counted = 0 := by
          cases a with
          | simulation a =>
            cases a with
            | longTermScheduler => simp [Act.isCall] at hcall
            | _ => rfl
          | _ => rfl
        have hbefore : m.booked = m.kernel.sched.gNumThreads := by
          simpa [booked, hnil] using hcounted.symm
        refine ⟨⟨hI.pid, by simpa [hmain, hnil, hzero] using hcounted⟩, ?_⟩
        rcases (hp.call hcall).2 with ⟨hstarts, hleft⟩ | ⟨hstarts, -, hnum, htwo, hmax⟩
        · exact .inl ⟨hstarts, by simp [booked, hmain, hnil, hleft]⟩
        · refine .inr ⟨hstarts, hbefore ▸ hnum, ?_⟩
          simp [booked, hmain, hnil, htwo, hmax]
      · refine ⟨⟨hI.pid, by simpa [Function.update_of_ne (Ne.symm hmain)] using hcounted⟩, ?_⟩
        rcases (hp.call hcall).2 with ⟨hstarts, -⟩ | ⟨-, hmain', -⟩
        · exact .inl ⟨hstarts, by simp [booked, Function.update_of_ne (Ne.symm hmain)]⟩
        · exact absurd hmain' hmain
    -- a thread that is made is a job less that has none
    · obtain ⟨hpid, hsum, hnum⟩ := Act.run_counts hk (hI.creates _ a (hacts ▸ List.mem_cons_self))
        hI.pid
      by_cases hmain : m.current = mainThread
      · rw [hmain] at hacts
        simp only [hacts, List.map_cons, List.sum_cons] at hcounted
        simp only [booked, hmain, Function.update_self, hacts, List.map_append, List.sum_append,
          List.map_cons, List.sum_cons]
        exact ⟨⟨hpid, by omega⟩, .inl ⟨rfl, by omega⟩⟩
      · -- the acts of another thread make no thread of a simulation
        have hleft := hI.others _ hmain a (hacts ▸ List.mem_cons_self)
        have hzero := Act.jobsLeft_follows hk hleft
        have hle := Act.sum_counted_le acts
        have hle' := a.counted_le.2
        simp only [booked, Function.update_of_ne (Ne.symm hmain)]
        exact ⟨⟨hpid, by omega⟩, .inl ⟨rfl, by omega⟩⟩
  obtain ⟨⟨hpid, hnum⟩, hbooked⟩ := hbooked
  rcases hbooked with ⟨hstarts, heq⟩ | ⟨hstarts, hlt, htwo, hmax⟩
  · exact ⟨⟨hpid, hnum, hcreates, hothers, htail, heq ▸ hbound⟩, .inl ⟨hstarts, heq⟩⟩
  · exact ⟨⟨hpid, hnum, hcreates, hothers, htail, by omega⟩, .inr ⟨hstarts, hlt, htwo⟩⟩

theorem boot_booked : boot.Booked where
  pid := by decide
  counted := by decide
  creates u a ha := by
    rcases mem_boot_acts ha with rfl | rfl <;> rfl
  others u hu a ha := by
    rcases mem_boot_acts ha with rfl | rfl <;> rfl
  tail := by decide
  bound := by decide

/-- One thread is counted and not made exactly when the main thread is making one. -/
theorem Booked.gNumThreads_eq (hI : m.Booked) :
    m.kernel.sched.gNumThreads = m.kernel.sched.made + if m.Counting then 1 else 0 := by
  have hcounted := hI.counted
  have htail := hI.tail
  have hiff : m.Counting ↔ (m.acts mainThread).head?.elim 0 Act.counted = 1 := Iff.rfl
  cases hacts : m.acts mainThread with
  | nil =>
    rw [hacts] at hcounted hiff
    rw [if_neg fun h => absurd (hiff.mp h) (by decide)]
    exact hcounted
  | cons a rest =>
    -- behind its first act the main thread counts nothing
    have hrest : (rest.map Act.counted).sum = 0 := by
      refine List.sum_eq_zero_iff_forall_eq_nat.mpr fun n hn => ?_
      obtain ⟨b, hb, rfl⟩ := List.mem_map.mp hn
      have hb' := htail b (by rw [hacts]; exact hb)
      exact Nat.le_zero.mp (hb' ▸ b.counted_le.2)
    have ha := a.counted_le.1
    rw [hacts, List.map_cons, List.sum_cons, hrest] at hcounted
    rw [hacts, List.head?_cons, Option.elim_some] at hiff
    by_cases hc : m.Counting
    · rw [if_pos hc, hcounted, hiff.mp hc]
    · have hne : a.counted ≠ 1 := fun h => hc (hiff.mpr h)
      rw [if_neg hc]
      omega

theorem Booked.gNumThreads_le (hI : m.Booked) : m.kernel.sched.gNumThreads ≤ m.booked := by
  rw [hI.counted, booked]
  exact Nat.add_le_add_left (Act.sum_counted_le _) _

end Machine

/-- On a run, the main thread follows the menu, and nothing else makes threads. -/
def RunsMenu (tr : List (Machine × Event)) : Prop :=
  ∀ n : Fin tr.length, (tr.get n).1.Permits (mainKeys (tr.take n)) (tr.get n).2

instance (tr : List (Machine × Event)) : Decidable (RunsMenu tr) := by
  unfold RunsMenu
  infer_instance

theorem RunsMenu.permits {tr : List (Machine × Event)} (h : RunsMenu tr) :
    ∀ p ∈ tr, ∃ keys, p.1.Permits keys p.2 := by
  intro p hp
  obtain ⟨n, rfl⟩ := List.mem_iff_get.mp hp
  exact ⟨_, h n⟩

/-- From the start on, however the threads are scheduled and whatever keys the user presses,
`g_num_threads` is the number of threads that have been made, or one more while the main thread is
between `gen_pid` and `thread_make_new`; it is never more than 29, and there are never more than 11
simulations. -/
theorem threads_of_run {m : Machine} {tr : List (Machine × Event)} (h : Run Machine.Step boot tr m)
    (hp : RunsMenu tr) :
    m.kernel.sched.gNumThreads = m.kernel.sched.made + (if m.Counting then 1 else 0) ∧
      m.kernel.sched.gNumThreads ≤ 29 ∧ tr.countP (fun p => p.1.Starts p.2) ≤ 11 := by
  have hbooked := h.invariant_of_steps (I := Machine.Booked)
    (C := fun m e => ∃ keys, m.Permits keys e) hp.permits Machine.boot_booked
    fun _ _ _ hI hp hs => hp.elim fun _ hp => (hI.step hp hs).1
  refine ⟨hbooked.gNumThreads_eq, ?_, ?_⟩
  · have hle := hbooked.gNumThreads_le
    have hbound := hbooked.bound
    unfold maxThreads schedulerSimLength at hbound
    omega
  · -- every simulation makes two threads at least
    have hrestricted := h.restrict (C := fun m e => ∃ keys, m.Permits keys e) hp.permits
    have hcount := hrestricted.countP_add_le (C := fun m e => m.Starts e)
      (I := Machine.Booked) (μ := fun m => (maxThreads + 1 - m.booked) / 2) Machine.boot_booked
      (fun _ _ _ hI hs => hs.2.elim fun _ hp => (hI.step hp hs.1).1) fun m e m' hI hs => ?_
    · have hstart : (maxThreads + 1 - boot.booked) / 2 = 11 := by decide
      simp only [hstart] at hcount
      simpa using Nat.le_of_add_right_le hcount
    · obtain ⟨keys, hp⟩ := hs.2
      rcases (hI.step hp hs.1).2 with ⟨hstarts, heq⟩ | ⟨hstarts, hlt, htwo⟩
      · rw [hstarts, heq]
        simp
      · rw [hstarts, if_pos rfl]
        omega

/-- The user selects the players of Peterson's solution: the main thread sleeps twice for a key, and
submits two jobs. -/
def selectPeterson : List Event :=
  .call (.keyboard (.waitForKey false)) :: .keyboard (some '1'.toNat) :: Machine.resume 3 ++
    (.call (.keyboard (.waitForKey false)) :: .keyboard (some '2'.toNat) :: Machine.resume 3) ++
    Machine.call (.simulation (.runSimulation gPetersonSim)) 12

/-- In front of the second `thread_make_new`, five threads are counted and four are made. -/
theorem threads_peterson : ∃ tr m, Run Machine.Step boot tr m ∧
    mainKeys tr = "12".toList.map Char.toNat ∧ m.Counting ∧ m.kernel.sched.made = 4 ∧
    m.kernel.sched.gNumThreads = 4 + 1 ∧ tr.countP (fun p => p.1.Starts p.2) ≤ 11 := by
  have hsome : (boot.runs selectPeterson).any fun r =>
      RunsMenu r.1 ∧ mainKeys r.1 = "12".toList.map Char.toNat ∧ r.2.Counting ∧
        r.2.kernel.sched.made = 4 := by decide
  obtain ⟨⟨tr, m⟩, hr, hend⟩ := (Option.any_eq_true _ _).mp hsome
  rw [decide_eq_true_iff] at hend
  obtain ⟨hmenu, hkeys, hcounting, hmade⟩ := hend
  have hrun := Machine.run_of_runs hr
  obtain ⟨hnum, -, hstarts⟩ := threads_of_run hrun hmenu
  rw [hmade, if_pos hcounting] at hnum
  exact ⟨tr, m, hrun, hkeys, hcounting, hmade, hnum, hstarts⟩

end GeekOS
