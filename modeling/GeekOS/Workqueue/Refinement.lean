import GeekOS.Workqueue.Control
import GeekOS.Workqueue.Order

/-!
# The work queue of the kernel in memory

`Machine` keeps the work queue as a list of items. Here the items in memory with their pointers are
put under it: every run of the machine is matched by a run of `State`, so that what is proved about
the pointers and the order of the work holds of the kernel's threads and callbacks. `code` gives the
addresses of the callback of an item and of its argument.

* `Represents`: a state of the memory that stands for a machine;
* `Represents.step`: a step of the machine is matched by steps in memory, or by none;
* `represents_of_run`: the same for a run.
-/

namespace GeekOS

open Result TransitionSystem

namespace Workqueue

/-- The addresses of its callback and of the argument. -/
def Entry.work (e : Entry) : ℕ × ℕ := (e.callback, e.data)

section Represents

variable (code : WorkItem → ℕ × ℕ)

/-- Where in `workqueue_schedule_work` a thread is that has these acts in front of it. -/
inductive SchedulesAt : List Act → Scheduling → Prop
  | outside {acts : List Act} (h : ∀ a ∈ acts.head?, a.isScheduling = false) :
      SchedulesAt acts .outside
  | alloc (item : WorkItem) (iflag slept : Bool) (rest : List Act) :
      SchedulesAt (.work (.schedule item iflag slept) :: rest) (.alloc (code item).1 (code item).2)
  | insert (item : WorkItem) (iflag : Bool) (rest : List Act) (i : ItemId) :
      SchedulesAt (.work (.link item iflag) :: rest) (.insert i (code item).1 (code item).2)

/-- Where in its loop the workqueue thread is when it has these acts in front of it. -/
inductive WorkerAt : List Act → WorkerPc → Prop
  | loop (slept : Bool) : WorkerAt [.work (.loop slept)] .loop
  | running {a : Act} {item : WorkItem} {e : Entry} (ha : a.callbackOf = some item)
      (he : e.work = code item) :
      WorkerAt [a, .work .freeItem, .work (.loop false)] (.running e)
  | free (e : Entry) : WorkerAt [.work .freeItem, .work (.loop false)] (.free e)

/-- The memory stands for the machine: the work that has come into the list and has not been called
yet is the work queue of the machine, the sleepers are the same, and the threads are at the same
places. The items are among the first `n` addresses of a heap of `size` bytes. -/
structure Represents (size n : ℕ) (m : Machine) (s : State ThreadId) : Prop where
  heap : s.gHeapstart = 0 ∧ s.gHeapend = size
  items : ∀ i, s.item i ≠ none → i < n
  inv : ∃ held queue, Inv s held queue
  workqueue : (s.inserted.drop s.invoked.length).map Entry.work = m.kernel.workqueue.map code
  sWaitqueue : s.sWaitqueue = m.kernel.sched.queue (.wait .work)
  /-- Other threads sleep in `mem_alloc`, too. -/
  sHeapWaitqueue : ∀ t, t ∈ s.sHeapWaitqueue ↔
    (s.scheduling t).isAlloc = true ∧ t ∈ m.kernel.sched.queue (.wait .heap)
  scheduling : ∀ t, SchedulesAt code (m.acts t) (s.scheduling t)
  worker : WorkerAt code (m.acts workqueueThread) s.worker

end Represents

variable {code : WorkItem → ℕ × ℕ} {size n : ℕ} {m m' : Machine} {k k' : Kernel}
  {acts : ThreadId → List Act} {l rest : List Act} {s : State ThreadId} {t : ThreadId}
  {memory : Memory} {item : WorkItem} {iflag slept : Bool}

theorem SchedulesAt.eq_outside {x : Scheduling} (h : SchedulesAt code l x)
    (hl : ∀ a ∈ l.head?, a.isScheduling = false) : x = .outside := by
  cases h with
  | outside => rfl
  | alloc | insert =>
    have hhead := hl _ rfl
    simp [Act.isScheduling] at hhead

theorem SchedulesAt.eq_alloc {x : Scheduling}
    (h : SchedulesAt code (.work (.schedule item iflag slept) :: rest) x) :
    x = .alloc (code item).1 (code item).2 := by
  cases h with
  | outside h => exact absurd (h _ rfl) (by simp [Act.isScheduling])
  | alloc => rfl

theorem SchedulesAt.eq_insert {x : Scheduling}
    (h : SchedulesAt code (.work (.link item iflag) :: rest) x) :
    ∃ i, x = .insert i (code item).1 (code item).2 := by
  cases h with
  | outside h => exact absurd (h _ rfl) (by simp [Act.isScheduling])
  | insert item iflag rest i => exact ⟨i, rfl⟩

/-- A thread is at a new place. -/
theorem schedulesAt_update {places : ThreadId → Scheduling} {x : Scheduling}
    (h : ∀ u, SchedulesAt code (acts u) (places u)) (hl : SchedulesAt code l x) (u : ThreadId) :
    SchedulesAt code (Function.update acts t l u) (Function.update places t x u) := by
  rcases eq_or_ne u t with rfl | hne
  · rwa [Function.update_self, Function.update_self]
  · rw [Function.update_of_ne hne, Function.update_of_ne hne]
    exact h u

/-- The next act of the workqueue thread is one of its own. -/
theorem WorkerAt.isWorker {a : Act} {pc : WorkerPc} (h : WorkerAt code (a :: rest) pc) :
    a.isWorker = true := by
  cases h with
  | loop | free => rfl
  | running ha => exact Act.isWorker_of_callbackOf ha

/-- The workqueue thread is not in `workqueue_schedule_work`. -/
theorem WorkerAt.not_isScheduling {pc : WorkerPc} (h : WorkerAt code l pc) :
    ∀ a ∈ l.head?, a.isScheduling = false := by
  intro a ha
  cases l with
  | nil => simp at ha
  | cons b l =>
    obtain rfl := by simpa using ha
    have hworker := h.isWorker
    unfold Act.isWorker at hworker
    split at hworker
    all_goals first | rfl | simp at hworker

/-- Another thread goes on. -/
theorem WorkerAt.update {pc : WorkerPc} (h : WorkerAt code (acts workqueueThread) pc)
    (ht : t ≠ workqueueThread) :
    WorkerAt code (Function.update acts t l workqueueThread) pc := by
  rwa [Function.update_of_ne ht.symm]

/-- In front of its test the workqueue thread holds nothing, and the entries that have not been
called are those of the list. -/
theorem Inv.of_loop {held queue : List Entry} (h : Inv s held queue) (hpc : s.worker = .loop) :
    held = [] ∧ s.inserted.drop s.invoked.length = queue := by
  have hholds := h.holds
  rw [hpc] at hholds
  cases hholds
  refine ⟨rfl, ?_⟩
  rw [h.invoked, h.inserted, hpc]
  simp [WorkerPc.begun]

/-- The item that is freed is allocated. -/
theorem Inv.stored_of_free {held queue : List Entry} (h : Inv s held queue) {e : Entry}
    (hpc : s.worker = .free e) : e.StoredIn s.item := by
  have hholds := h.holds
  rw [hpc] at hholds
  cases hholds
  exact h.stored e (by simp)

namespace Represents

variable (h : Represents code size n ⟨k, acts⟩ s)
include h

/-- A thread that runs is not asleep in memory. -/
theorem awake (ht : ∀ q, t ∉ k.sched.queue (.wait q)) : s.Awake t := by
  refine ⟨fun hin => ?_, fun hin => ht .heap ((h.sHeapWaitqueue t).mp hin).2⟩
  rw [h.sWaitqueue] at hin
  exact ht .work hin

/-- A thread in front of another act is not the workqueue thread. -/
theorem ne_worker {a : Act} (hacts : acts t = a :: rest) (ha : a.isWorker = false) :
    t ≠ workqueueThread := by
  rintro rfl
  have hworker := h.worker
  rw [show (Machine.mk k acts).acts workqueueThread = _ from hacts] at hworker
  simp [hworker.isWorker] at ha

theorem schedulesAt (hacts : acts t = l) : SchedulesAt code l (s.scheduling t) :=
  hacts ▸ (h.scheduling t : SchedulesAt code (acts t) (s.scheduling t))

/-- The sleepers in `mem_alloc`, where the kernel has left their queue alone. -/
theorem heapSleepers (hheap : k'.sched.queue (.wait .heap) = k.sched.queue (.wait .heap))
    (u : ThreadId) : u ∈ s.sHeapWaitqueue ↔
      (s.scheduling u).isAlloc = true ∧ u ∈ k'.sched.queue (.wait .heap) := by
  rw [hheap]
  exact h.sHeapWaitqueue u

theorem mono {n' : ℕ} (hn : n ≤ n') : Represents code size n' ⟨k, acts⟩ s :=
  { h with items := fun i hi => (h.items i hi).trans_le hn }

/-! ### The threads that do not sleep -/

/-- A step of the kernel that leaves the work queue and its sleepers alone. -/
theorem quiet (k' : Kernel) (hworkqueue : k'.workqueue = k.workqueue)
    (hwork : k'.sched.queue (.wait .work) = k.sched.queue (.wait .work))
    (hheap : ∀ u, (s.scheduling u).isAlloc = true →
      (u ∈ k'.sched.queue (.wait .heap) ↔ u ∈ k.sched.queue (.wait .heap))) :
    Represents code size n ⟨k', acts⟩ s where
  heap := h.heap
  items := h.items
  inv := h.inv
  workqueue := hworkqueue ▸ h.workqueue
  sWaitqueue := h.sWaitqueue.trans hwork.symm
  sHeapWaitqueue u := (h.sHeapWaitqueue u).trans
    (and_congr_right fun halloc => (hheap u halloc).symm)
  scheduling := h.scheduling
  worker := h.worker

/-- A thread goes on that is not in `workqueue_schedule_work`. -/
theorem goesOn (ht : t ≠ workqueueThread) (hout : s.scheduling t = .outside)
    (hl : ∀ a ∈ l.head?, a.isScheduling = false) :
    Represents code size n ⟨k, Function.update acts t l⟩ s where
  heap := h.heap
  items := h.items
  inv := h.inv
  workqueue := h.workqueue
  sWaitqueue := h.sWaitqueue
  sHeapWaitqueue := h.sHeapWaitqueue
  scheduling u := by
    have hplaces := schedulesAt_update (t := t) h.scheduling (.outside hl) u
    rwa [← hout, Function.update_eq_self] at hplaces
  worker := h.worker.update ht

/-- It calls `workqueue_schedule_work`. -/
theorem calls (ht : t ≠ workqueueThread) (hawake : ∀ q, t ∉ k.sched.queue (.wait q))
    (hout : s.scheduling t = .outside) :
    ∃ s', State.Step workqueueThread s (.call t (code item).1 (code item).2) s' ∧
      Represents code size n
        ⟨k, Function.update acts t (.work (.schedule item iflag slept) :: rest)⟩ s' := by
  have hstep : State.Step workqueueThread s (.call t (code item).1 (code item).2) _ :=
    ⟨⟨h.awake hawake, hout, fun heq => absurd heq ht⟩, rfl⟩
  refine ⟨_, hstep, h.heap, h.items, inv_step hstep h.inv, h.workqueue, h.sWaitqueue, fun u => ?_,
    schedulesAt_update h.scheduling (.alloc item iflag slept rest), h.worker.update ht⟩
  rcases eq_or_ne u t with rfl | hne
  · -- it is awake before and behind the call
    simp [(h.awake hawake).2, hawake]
  · simpa [Function.update_of_ne hne] using h.sHeapWaitqueue u

/-- The next acts of a thread that is not in `workqueue_schedule_work`, and perhaps calls it. -/
theorem control (ht : t ≠ workqueueThread) (hawake : ∀ q, t ∉ k.sched.queue (.wait q))
    (hout : s.scheduling t = .outside)
    (hl : ∀ item iflag, l.head? ≠ some (.work (.link item iflag))) :
    ∃ s', Reachable (State.Step workqueueThread) s s' ∧
      Represents code size n ⟨k, Function.update acts t l⟩ s' := by
  by_cases hschedule : ∃ item iflag slept rest, l = .work (.schedule item iflag slept) :: rest
  · obtain ⟨item, iflag, slept, rest, rfl⟩ := hschedule
    obtain ⟨s', hs, h'⟩ := h.calls ht hawake hout
    exact ⟨s', (Reachable.refl s).tail hs, h'⟩
  · refine ⟨s, .refl s, h.goesOn ht hout fun a ha => ?_⟩
    cases l with
    | nil => simp at ha
    | cons b l =>
      obtain rfl := by simpa using ha
      unfold Act.isScheduling
      split
      next item iflag slept => exact absurd ⟨item, iflag, slept, l, rfl⟩ hschedule
      next item iflag => exact absurd rfl (hl item iflag)
      next => rfl

/-! ### The sleepers -/

/-- A thread goes to sleep in `s_waitqueue` and waits for a key. -/
theorem waits (k' : Kernel) (hcan : s.CanCall workqueueThread t)
    (hworkqueue : k'.workqueue = k.workqueue)
    (hwork : k'.sched.queue (.wait .work) = k.sched.queue (.wait .work) ++ [t])
    (hheap : k'.sched.queue (.wait .heap) = k.sched.queue (.wait .heap)) :
    ∃ s', State.Step workqueueThread s (.wait t) s' ∧ Represents code size n ⟨k', acts⟩ s' := by
  have hstep : State.Step workqueueThread s (.wait t) _ := ⟨hcan, rfl⟩
  refine ⟨_, hstep, h.heap, h.items, inv_step hstep h.inv, hworkqueue ▸ h.workqueue, ?_,
    h.heapSleepers hheap, h.scheduling, h.worker⟩
  change s.sWaitqueue ++ [t] = k'.sched.queue (.wait .work)
  rw [hwork, h.sWaitqueue]

/-- The sleepers of `s_waitqueue` are woken. -/
theorem wakesAll (k' : Kernel) (hworkqueue : k'.workqueue = k.workqueue)
    (hwork : k'.sched.queue (.wait .work) = [])
    (hheap : k'.sched.queue (.wait .heap) = k.sched.queue (.wait .heap)) :
    ∃ s', State.Step workqueueThread s .wakeAll s' ∧ Represents code size n ⟨k', acts⟩ s' := by
  have hstep : State.Step workqueueThread s .wakeAll _ := ⟨trivial, rfl⟩
  exact ⟨_, hstep, h.heap, h.items, inv_step hstep h.inv, hworkqueue ▸ h.workqueue, hwork.symm,
    h.heapSleepers hheap, h.scheduling, h.worker⟩

/-- A `mem_free` wakes the sleepers in `mem_alloc`. -/
theorem memFree (k' : Kernel) (hworkqueue : k'.workqueue = k.workqueue)
    (hwork : k'.sched.queue (.wait .work) = k.sched.queue (.wait .work))
    (hheap : k'.sched.queue (.wait .heap) = []) :
    ∃ s', State.Step workqueueThread s .memFree s' ∧ Represents code size n ⟨k', acts⟩ s' := by
  have hstep : State.Step workqueueThread s .memFree _ := ⟨trivial, rfl⟩
  refine ⟨_, hstep, h.heap, h.items, inv_step hstep h.inv, hworkqueue ▸ h.workqueue,
    h.sWaitqueue.trans hwork.symm, fun u => ?_, h.scheduling, h.worker⟩
  change u ∈ [] ↔ _ ∧ u ∈ k'.sched.queue (.wait .heap)
  simp [hheap]

/-! ### `workqueue_schedule_work` -/

/-- A thread in front of `mem_alloc` goes to sleep in it. -/
theorem allocSleeps (k' : Kernel) (hacts : acts t = .work (.schedule item iflag slept) :: rest)
    (hawake : ∀ q, t ∉ k.sched.queue (.wait q)) (hworkqueue : k'.workqueue = k.workqueue)
    (hwork : k'.sched.queue (.wait .work) = k.sched.queue (.wait .work))
    (hheap : k'.sched.queue (.wait .heap) = k.sched.queue (.wait .heap) ++ [t]) :
    ∃ s', State.Step workqueueThread s (.malloc t none) s' ∧ Represents code size n
      ⟨k', Function.update acts t (.work (.schedule item iflag true) :: rest)⟩ s' := by
  have ht := h.ne_worker hacts rfl
  have hplace : s.scheduling t = .alloc (code item).1 (code item).2 :=
    (h.schedulesAt hacts).eq_alloc
  have hstep : State.Step workqueueThread s (.malloc t none)
      (s.memAlloc t (code item).1 (code item).2 none) := by
    refine ⟨⟨h.awake hawake, by rw [hplace]; rfl, by simp⟩, ?_⟩
    simp only [State.exec, hplace]
  refine ⟨_, hstep, h.heap, h.items, inv_step hstep h.inv, hworkqueue ▸ h.workqueue,
    h.sWaitqueue.trans hwork.symm, fun u => ?_, fun u => ?_, h.worker.update ht⟩
  · change u ∈ s.sHeapWaitqueue ++ [t] ↔ (s.scheduling u).isAlloc = true ∧
      u ∈ k'.sched.queue (.wait .heap)
    rw [hheap, List.mem_append, List.mem_append, h.sHeapWaitqueue u, List.mem_singleton]
    constructor
    · rintro (⟨halloc, hin⟩ | rfl)
      · exact ⟨halloc, .inl hin⟩
      · exact ⟨by rw [hplace]; rfl, .inr rfl⟩
    · rintro ⟨halloc, hin | rfl⟩
      · exact .inl ⟨halloc, hin⟩
      · exact .inr rfl
  · -- it is at the same place as before
    have hplaces := schedulesAt_update (t := t) h.scheduling (.alloc item iflag true rest) u
    rwa [← hplace, Function.update_eq_self] at hplaces

/-- It gets an item and fills it. -/
theorem allocates (hacts : acts t = .work (.schedule item iflag slept) :: rest)
    (hawake : ∀ q, t ∉ k.sched.queue (.wait q)) :
    ∃ s', Reachable (State.Step workqueueThread) s s' ∧ Represents code size (n + 1)
      ⟨k, Function.update acts t (.work (.link item iflag) :: rest)⟩ s' := by
  have ht := h.ne_worker hacts rfl
  have hplace : s.scheduling t = .alloc (code item).1 (code item).2 :=
    (h.schedulesAt hacts).eq_alloc
  -- the next address is not in use
  have hfree : s.item n = none := by
    by_contra hne
    exact (h.items n hne).false
  have hmalloc : State.Step workqueueThread s (.malloc t (some n))
      (s.memAlloc t (code item).1 (code item).2 (some n)) := by
    refine ⟨⟨h.awake hawake, by rw [hplace]; rfl, by simpa using hfree⟩, ?_⟩
    simp only [State.exec, hplace]
  have hfill : State.Step workqueueThread (s.memAlloc t (code item).1 (code item).2 (some n))
      (.fill t) { s with
        item := Function.update s.item n (some ⟨(code item).1, (code item).2, none⟩)
        scheduling := Function.update s.scheduling t
          (.insert n (code item).1 (code item).2) } := by
    refine ⟨⟨h.awake hawake, by simp [State.memAlloc, Scheduling.isFill]⟩, ?_⟩
    simp [State.exec, State.memAlloc, State.deref]
  refine ⟨_, ((Reachable.refl s).tail hmalloc).tail hfill, h.heap, fun i hi => ?_,
    inv_step hfill (inv_step hmalloc h.inv), h.workqueue, h.sWaitqueue, fun u => ?_,
    schedulesAt_update h.scheduling (.insert item iflag rest n), h.worker.update ht⟩
  · rcases eq_or_ne i n with rfl | hne
    · exact Nat.lt_succ_self i
    · replace hi : Function.update s.item n (some ⟨_, _, none⟩) i ≠ none := hi
      rw [Function.update_of_ne hne] at hi
      exact (h.items i hi).trans (Nat.lt_succ_self n)
  · rcases eq_or_ne u t with rfl | hne
    · simp [(h.awake hawake).2, Scheduling.isAlloc]
    · simpa [Function.update_of_ne hne] using h.sHeapWaitqueue u

/-- It puts its item on the list and wakes the first sleeper. -/
theorem inserts (k' : Kernel) (hacts : acts t = .work (.link item iflag) :: rest)
    (hawake : ∀ q, t ∉ k.sched.queue (.wait q))
    (hrest : ∀ a ∈ rest.head?, a.isScheduling = false)
    (hworkqueue : k'.workqueue = k.workqueue ++ [item])
    (hwork : ∃ u, k.sched.queue (.wait .work) = u :: k'.sched.queue (.wait .work))
    (hheap : k'.sched.queue (.wait .heap) = k.sched.queue (.wait .heap)) :
    ∃ s', State.Step workqueueThread s (.insert t) s' ∧
      Represents code size n ⟨k', Function.update acts t rest⟩ s' := by
  have ht := h.ne_worker hacts rfl
  obtain ⟨i, hplace⟩ := (h.schedulesAt hacts).eq_insert
  obtain ⟨held, queue, hinv⟩ := h.inv
  obtain ⟨u, hwork⟩ := hwork
  -- the list is well formed and somebody sleeps in `s_waitqueue`, so both assertions hold
  obtain ⟨s₁, hlink, -⟩ := hinv.insert hplace
  obtain ⟨item', head', tail', hsame, rfl⟩ := State.link_eq_ok hlink
  have hawakened : s.sWaitqueue = u :: k'.sched.queue (.wait .work) := h.sWaitqueue.trans hwork
  have hstep : State.Step workqueueThread s (.insert t) { s with
      item := item'
      sWorkqueueHead := head'
      sWorkqueueTail := tail'
      scheduling := Function.update s.scheduling t .outside
      inserted := s.inserted ++ [⟨i, (code item).1, (code item).2⟩]
      sWaitqueue := k'.sched.queue (.wait .work) } := by
    refine ⟨⟨h.awake hawake, by rw [hplace]; rfl⟩, ?_⟩
    simp [State.exec, hplace, hlink, State.threadWakeupOne, State.kassert, Result.require,
      hawakened]
  refine ⟨_, hstep, h.heap, fun j hj => h.items j ((hsame j).not.mp hj), inv_step hstep h.inv, ?_,
    rfl, fun v => ?_, schedulesAt_update h.scheduling (.outside hrest), h.worker.update ht⟩
  · -- it is called behind the others
    have hlength := hinv.inOrder.invoked.length_le
    change (List.drop s.invoked.length (s.inserted ++ [_])).map Entry.work = k'.workqueue.map code
    rw [List.drop_append_of_le_length hlength, List.map_append, h.workqueue, hworkqueue,
      List.map_append]
    rfl
  · change v ∈ s.sHeapWaitqueue ↔ (Function.update s.scheduling t .outside v).isAlloc = true ∧
      v ∈ k'.sched.queue (.wait .heap)
    rw [hheap]
    rcases eq_or_ne v t with rfl | hne
    · simp [(h.awake hawake).2, Scheduling.isAlloc]
    · simpa [Function.update_of_ne hne] using h.sHeapWaitqueue v

/-! ### The workqueue thread -/

/-- The workqueue thread is not in `workqueue_schedule_work`, wherever it goes on in its loop. -/
theorem places_worker {pc : WorkerPc} (hl : WorkerAt code l pc) (u : ThreadId) :
    SchedulesAt code (Function.update acts workqueueThread l u) (s.scheduling u) := by
  have hout := (h.scheduling workqueueThread).eq_outside h.worker.not_isScheduling
  have hplaces := schedulesAt_update (t := workqueueThread) h.scheduling
    (.outside hl.not_isScheduling) u
  rwa [← hout, Function.update_eq_self] at hplaces

/-- It goes on in its callback. -/
theorem workerGoesOn (hl : WorkerAt code l s.worker) :
    Represents code size n ⟨k, Function.update acts workqueueThread l⟩ s where
  heap := h.heap
  items := h.items
  inv := h.inv
  workqueue := h.workqueue
  sWaitqueue := h.sWaitqueue
  sHeapWaitqueue := h.sHeapWaitqueue
  scheduling := h.places_worker hl
  worker := by
    change WorkerAt code (Function.update acts workqueueThread l workqueueThread) s.worker
    rwa [Function.update_self]

/-- It finds no work and goes to sleep. -/
theorem workerSleeps (k' : Kernel) (slept : Bool) (hpc : s.worker = .loop)
    (hawake : ∀ q, workqueueThread ∉ k.sched.queue (.wait q)) (hempty : k.workqueue = [])
    (hworkqueue : k'.workqueue = k.workqueue)
    (hwork : k'.sched.queue (.wait .work) = k.sched.queue (.wait .work) ++ [workqueueThread])
    (hheap : k'.sched.queue (.wait .heap) = k.sched.queue (.wait .heap)) :
    ∃ s', State.Step workqueueThread s .worker s' ∧ Represents code size n
      ⟨k', Function.update acts workqueueThread [.work (.loop slept)]⟩ s' := by
  obtain ⟨held, queue, hinv⟩ := h.inv
  obtain ⟨rfl, hqueue⟩ := hinv.of_loop hpc
  -- no work is left, so the list is empty
  have hhead : s.sWorkqueueHead = none := by
    have hdrop := h.workqueue
    rw [hqueue, show (Machine.mk k acts).kernel.workqueue = [] from hempty] at hdrop
    obtain rfl : queue = [] := by simpa using hdrop
    exact hinv.list.chain.head?.symm
  have hstep : State.Step workqueueThread s .worker
      { s with sWaitqueue := s.sWaitqueue ++ [workqueueThread] } := by
    refine ⟨⟨h.awake hawake, by simp [State.inCallback, hpc]⟩, ?_⟩
    have hexec : s.exec workqueueThread .worker = s.nextItem workqueueThread := by
      simp only [State.exec, hpc]
    exact hexec.trans (State.nextItem_of_empty hhead)
  have hat : WorkerAt code [.work (.loop slept)] s.worker := hpc ▸ .loop slept
  refine ⟨_, hstep, h.heap, h.items, inv_step hstep h.inv, hworkqueue ▸ h.workqueue, ?_,
    h.heapSleepers hheap, h.places_worker hat, (h.workerGoesOn hat).worker⟩
  change s.sWaitqueue ++ [workqueueThread] = k'.sched.queue (.wait .work)
  rw [hwork, h.sWaitqueue]

/-- It takes the first item and calls its callback. -/
theorem workerTakes (hpc : s.worker = .loop) {work : List WorkItem} {a : Act}
    (hawake : ∀ q, workqueueThread ∉ k.sched.queue (.wait q)) (hitem : k.workqueue = item :: work)
    (ha : a.callbackOf = some item) :
    ∃ s', Reachable (State.Step workqueueThread) s s' ∧ Represents code size n
      ⟨{ k with workqueue := work },
        Function.update acts workqueueThread [a, .work .freeItem, .work (.loop false)]⟩ s' := by
  obtain ⟨held, queue, hinv⟩ := h.inv
  obtain ⟨rfl, hqueue⟩ := hinv.of_loop hpc
  have hdrop := h.workqueue
  rw [hqueue, show (Machine.mk k acts).kernel.workqueue = _ from hitem] at hdrop
  -- the first entry of the list is the work that the machine takes
  obtain ⟨e, queue, rfl, he, hrest⟩ := List.map_eq_cons_iff.mp hdrop
  have hstored := hinv.stored e (by simp)
  obtain ⟨head', tail', hnext, -⟩ := nextItem_eq (w := workqueueThread) hinv.list hstored
  -- two steps in memory: out of the list, and into the callback
  have htake : State.Step workqueueThread s .worker { s with
      sWorkqueueHead := head', sWorkqueueTail := tail', worker := .invoke e.item } := by
    refine ⟨⟨h.awake hawake, by simp [State.inCallback, hpc]⟩, ?_⟩
    simp only [State.exec, hpc]
    exact hnext
  have hinvoke : State.Step workqueueThread { s with
      sWorkqueueHead := head', sWorkqueueTail := tail', worker := .invoke e.item } .worker { s with
      sWorkqueueHead := head', sWorkqueueTail := tail', worker := .running e,
      invoked := s.invoked ++ [e] } := by
    refine ⟨⟨h.awake hawake, rfl⟩, ?_⟩
    obtain ⟨next, hrecord⟩ := hstored
    simp [State.exec, State.invoke, State.deref, hrecord]
  have hat : WorkerAt code [a, .work .freeItem, .work (.loop false)] (.running e) :=
    .running ha he
  refine ⟨_, ((Reachable.refl s).tail htake).tail hinvoke, h.heap, h.items,
    inv_step hinvoke (inv_step htake h.inv), ?_, h.sWaitqueue, h.sHeapWaitqueue,
    h.places_worker hat, ?_⟩
  · change (s.inserted.drop (s.invoked ++ [e]).length).map _ = work.map code
    rw [List.length_append, List.length_singleton, ← List.drop_drop, hqueue, List.drop_one,
      List.tail_cons]
    exact hrest
  · change WorkerAt code (Function.update acts workqueueThread _ workqueueThread) _
    rwa [Function.update_self]

/-- The callback returns. -/
theorem callbackReturns {e : Entry} (hpc : s.worker = .running e)
    (hawake : ∀ q, workqueueThread ∉ k.sched.queue (.wait q)) :
    ∃ s', State.Step workqueueThread s .callbackReturns s' ∧ Represents code size n
      ⟨k, Function.update acts workqueueThread [.work .freeItem, .work (.loop false)]⟩ s' := by
  have hout := (h.scheduling workqueueThread).eq_outside h.worker.not_isScheduling
  have hstep : State.Step workqueueThread s .callbackReturns
      { s with worker := .free e, returned := s.returned ++ [e] } := by
    refine ⟨⟨h.awake hawake, hout, by simp [State.inCallback, hpc]⟩, ?_⟩
    simp only [State.exec, hpc]
  refine ⟨_, hstep, h.heap, h.items, inv_step hstep h.inv, h.workqueue, h.sWaitqueue,
    h.sHeapWaitqueue, h.places_worker (.free e), ?_⟩
  change WorkerAt code (Function.update acts workqueueThread _ workqueueThread) (.free e)
  rw [Function.update_self]
  exact .free e

/-- It frees the item and goes back to the test of its loop. -/
theorem freesItem (k' : Kernel) {e : Entry} (hpc : s.worker = .free e) (hn : n ≤ size)
    (hawake : ∀ q, workqueueThread ∉ k.sched.queue (.wait q))
    (hworkqueue : k'.workqueue = k.workqueue)
    (hwork : k'.sched.queue (.wait .work) = k.sched.queue (.wait .work))
    (hheap : k'.sched.queue (.wait .heap) = []) :
    ∃ s', State.Step workqueueThread s .worker s' ∧ Represents code size n
      ⟨k', Function.update acts workqueueThread [.work (.loop false)]⟩ s' := by
  obtain ⟨held, queue, hinv⟩ := h.inv
  obtain ⟨next, hrecord⟩ := hinv.stored_of_free hpc
  have hlt := h.items e.item (by rw [hrecord]; simp)
  -- the assertion of `mem_free`
  have hrange : s.gHeapstart ≤ e.item ∧ e.item < s.gHeapend := by
    rw [h.heap.1, h.heap.2]
    exact ⟨Nat.zero_le _, hlt.trans_le hn⟩
  have hstep : State.Step workqueueThread s .worker { s with
      item := Function.update s.item e.item none
      sHeapWaitqueue := []
      worker := .loop
      freed := s.freed ++ [e] } := by
    refine ⟨⟨h.awake hawake, by simp [State.inCallback, hpc]⟩, ?_⟩
    simp [State.exec, hpc, State.memFree, State.kassert, Result.require, hrange, State.deref,
      hrecord]
  refine ⟨_, hstep, h.heap, fun i hi => ?_, inv_step hstep h.inv, hworkqueue ▸ h.workqueue,
    h.sWaitqueue.trans hwork.symm, fun u => ?_, h.places_worker (.loop false), ?_⟩
  · refine h.items i fun hnone => hi ?_
    change Function.update s.item e.item none i = none
    rcases eq_or_ne i e.item with rfl | hne
    · rw [Function.update_self]
    · rw [Function.update_of_ne hne, hnone]
  · change u ∈ [] ↔ _ ∧ u ∈ k'.sched.queue (.wait .heap)
    simp [hheap]
  · change WorkerAt code (Function.update acts workqueueThread _ workqueueThread) .loop
    rw [Function.update_self]
    exact .loop false

end Represents

/-! ## The steps of the machine -/

/-- A thread that is awake is so when others have been woken. -/
theorem awake_of_wakesAll {sched sched' : Sched} {q : WaitQueue} (h : sched.WakesAll q sched')
    (ht : ∀ q, t ∉ sched.queue (.wait q)) (q' : WaitQueue) : t ∉ sched'.queue (.wait q') := by
  by_cases hq : q' = q
  · rw [hq, h.empty]
    exact List.not_mem_nil
  · rw [h.others _ (by simpa using hq) (by simp)]
    exact ht q'

namespace Represents

/-- The sleepers of another queue than `s_waitqueue` are woken. -/
theorem wakesOthers (h : Represents code size n ⟨k, acts⟩ s) {q : WaitQueue} {sched : Sched}
    (hall : k.sched.WakesAll q sched) (hq : q ≠ .work) :
    ∃ s', Reachable (State.Step workqueueThread) s s' ∧ s'.worker = s.worker ∧
      Represents code size n ⟨{ k with sched }, acts⟩ s' := by
  have hwork : sched.queue (.wait .work) = k.sched.queue (.wait .work) :=
    hall.others _ (by simpa using hq.symm) (by simp)
  -- the memory of the items knows of the sleepers in `mem_alloc` only
  by_cases hheap : q = .heap
  · obtain ⟨s', hs, h'⟩ := h.memFree { k with sched } rfl hwork (hheap ▸ hall.empty)
    exact ⟨s', (Reachable.refl s).tail hs, (State.exec_frame (by simp) (by simp) hs.2).1, h'⟩
  · have hsame : sched.queue (.wait .heap) = k.sched.queue (.wait .heap) :=
      hall.others _ (by simpa using Ne.symm hheap) (by simp)
    exact ⟨s, .refl s, rfl, h.quiet { k with sched } rfl hwork fun u _ => by rw [hsame]⟩

variable {a : Act} {new : List Act} (h : Represents code size n m s)
  (hp : Placed [m.current] m.kernel.sched) (hacts : m.acts m.current = a :: rest)
  (hk : a.run memory m.kernel = .ok (new, k'))
include h hp hacts hk

/-- A thread goes through an act outside `workqueue.c`. -/
theorem act (hc : WorkControl m) (hother : a.isScheduling = false) (hworker : a.isWorker = false) :
    ∃ s', Reachable (State.Step workqueueThread) s s' ∧
      Represents code size n ⟨k', Function.update m.acts m.current (new ++ rest)⟩ s' := by
  have hawake : ∀ q, m.current ∉ m.kernel.sched.queue (.wait q) :=
    fun q => hp.outside _ (List.mem_singleton_self _) _
  have hfollows := Act.run_follows hk
  obtain ⟨hownWork, hownHeap⟩ := hc.own _ a (hacts ▸ List.mem_cons_self)
  have ht : m.current ≠ workqueueThread := h.ne_worker hacts hworker
  have hout := (h.schedulesAt hacts).eq_outside (by simpa using hother)
  -- first where the thread goes on, and perhaps the call of `workqueue_schedule_work`
  obtain ⟨s₁, hr, h₁⟩ := h.control (l := new ++ rest) ht hawake hout fun item iflag hl => by
    have hleads := hfollows.leadsTo (hc.mem_of_head hacts hl rfl)
    rw [Act.isScheduling_of_leadsTo_link hleads] at hother
    cases hother
  have hat := h₁.schedulesAt (Function.update_self ..)
  -- then what the act does to the sleepers
  by_cases hwait : ∃ slept, a = .keyboard (.waitForKey slept) ∧ m.kernel.keyQueue = []
  · obtain ⟨slept, rfl, hempty⟩ := hwait
    cases KeyboardAct.run_step hk with
    | @waitForKeyAsleep _ sched _ hs =>
      have hcan : s₁.CanCall workqueueThread m.current :=
        ⟨h₁.awake hawake, hat.eq_outside (by simp [Act.isScheduling]), fun heq => absurd heq ht⟩
      have hheap : sched.queue (.wait .heap) = m.kernel.sched.queue (.wait .heap) :=
        (Act.run_moves hk).queue_wait_eq (by simp [Act.Allows, Act.wakes])
          (by simp [Act.Allows, Act.sleepsOn, hempty])
      have hwork := threadWait_queue hs
      obtain ⟨s', hstep, h'⟩ := h₁.waits { m.kernel with sched } hcan rfl hwork hheap
      exact ⟨s', hr.tail hstep, h'⟩
    | waitForKey hkey => simp [hempty] at hkey
  · have hkeys : ∀ slept, a = .keyboard (.waitForKey slept) → m.kernel.keyQueue ≠ [] :=
      fun slept ha hempty => hwait ⟨slept, ha, hempty⟩
    refine ⟨s₁, hr, h₁.quiet k' (Act.workqueue_eq hk hother hworker)
      (Act.queue_work_eq hk hother hworker hownWork hkeys) fun u halloc => ?_⟩
    refine Act.mem_heap_iff hk hworker hownHeap ?_
    rintro rfl
    -- who has just called `workqueue_schedule_work` has not gone to sleep in `mem_alloc` before
    generalize s₁.scheduling m.current = x at hat halloc
    generalize hl : new ++ rest = l at hat
    cases hat with
    | outside | insert => simp [Scheduling.isAlloc] at halloc
    | alloc item iflag slept behind =>
      have hhead : (new ++ rest).head? = some (.work (.schedule item iflag slept)) := by
        rw [hl]
        rfl
      have hin := hc.mem_of_head hacts hhead rfl
      exact Act.sleepsOn_heap_of_leadsTo (hfollows.leadsTo hin) hother

/-- A thread in `workqueue_schedule_work`. -/
theorem schedule (hc : WorkControl m) (hscheduling : a.isScheduling = true) :
    ∃ s', Reachable (State.Step workqueueThread) s s' ∧
      Represents code size (n + 1) ⟨k', Function.update m.acts m.current (new ++ rest)⟩ s' := by
  have hawake : ∀ q, m.current ∉ m.kernel.sched.queue (.wait q) :=
    fun q => hp.outside _ (List.mem_singleton_self _) _
  have hmoves := Act.run_moves hk
  unfold Act.isScheduling at hscheduling
  split at hscheduling
  next item iflag slept =>
    cases WorkAct.run_step hk with
    | @scheduleAsleep _ _ _ sched hmemory hs =>
      have hwork : sched.queue (.wait .work) = m.kernel.sched.queue (.wait .work) :=
        hmoves.queue_wait_eq (by simp [Act.Allows, Act.wakes])
          (by simp [Act.Allows, Act.sleepsOn, hmemory])
      obtain ⟨s', hstep, h'⟩ := h.allocSleeps { m.kernel with sched } hacts hawake rfl hwork
        (threadWait_queue hs)
      exact ⟨s', (Reachable.refl s).tail hstep, h'.mono (Nat.le_succ n)⟩
    | schedule => exact h.allocates hacts hawake
  next item iflag =>
    cases WorkAct.run_step hk with
    | @link _ _ sched hs =>
      have hrest : ∀ b ∈ rest.head?, b.isScheduling = false := fun b hb =>
        hc.behind m.current b (by rw [hacts]; exact List.mem_of_mem_head? hb)
      have hheap : sched.queue (.wait .heap) = m.kernel.sched.queue (.wait .heap) :=
        hmoves.queue_wait_eq (by simp [Act.Allows, Act.wakes]) (by simp [Act.Allows, Act.sleepsOn])
      obtain ⟨u, sleepers, th, hq, -, -, -, hsched⟩ := threadWakeupOne_eq_ok.mp hs
      have hwork : sched.queue (.wait .work) = sleepers := by
        rw [hsched]
        simp [scheduleInto]
      obtain ⟨s', hstep, h'⟩ := h.inserts
        { m.kernel with sched, workqueue := m.kernel.workqueue ++ [item] } hacts hawake
        hrest rfl ⟨u, hwork ▸ hq⟩ hheap
      exact ⟨s', (Reachable.refl s).tail hstep, h'.mono (Nat.le_succ n)⟩
  next => cases hscheduling

/-- The workqueue thread in its loop. -/
theorem workerAct (hcur : m.current = workqueueThread) (hn : n ≤ size) :
    ∃ s', Reachable (State.Step workqueueThread) s s' ∧
      Represents code size n ⟨k', Function.update m.acts m.current (new ++ rest)⟩ s' := by
  have hawake : ∀ q, m.current ∉ m.kernel.sched.queue (.wait q) :=
    fun q => hp.outside _ (List.mem_singleton_self _) _
  have hmoves := Act.run_moves hk
  have hat := h.worker
  rw [← hcur, hacts] at hat
  rw [hcur] at hawake ⊢
  generalize hpc : s.worker = pc at hat
  cases hat with
  | loop slept =>
    cases WorkAct.run_step hk with
    | @loopAsleep _ sched hempty hs =>
      have hheap : sched.queue (.wait .heap) = m.kernel.sched.queue (.wait .heap) :=
        hmoves.queue_wait_eq (by simp [Act.Allows, Act.wakes])
          (by simp [Act.Allows, Act.sleepsOn, hempty])
      obtain ⟨s', hstep, h'⟩ := h.workerSleeps { m.kernel with sched } true hpc
        hawake hempty rfl (hcur ▸ threadWait_queue hs) hheap
      exact ⟨s', (Reachable.refl s).tail hstep, h'⟩
    | loop hitem =>
      exact h.workerTakes hpc hawake hitem (by
        rename_i item _
        cases item <;> rfl)
  | @running _ item e ha he =>
    -- in memory the callback is one place, which the thread leaves with its last act
    obtain ⟨⟨q, sched, hq, rfl, hall⟩, hnew⟩ := Act.callback_step ha hk
    obtain ⟨s₁, hr, hworker, h₁⟩ := h.wakesOthers hall hq
    rcases hnew with rfl | ⟨b, rfl, hb⟩
    · obtain ⟨s', hstep, h'⟩ := h₁.callbackReturns (hworker.trans hpc)
        (awake_of_wakesAll hall hawake)
      exact ⟨s', hr.tail hstep, h'⟩
    · have hat : WorkerAt code [b, .work .freeItem, .work (.loop false)] s₁.worker := by
        rw [hworker, hpc]
        exact .running hb he
      exact ⟨s₁, hr, h₁.workerGoesOn hat⟩
  | free e =>
    obtain ⟨sched, rfl, hall⟩ := (WorkAct.run_step hk).wakesAll rfl (by simp)
    cases WorkAct.run_step hk with
    | freeItem hs =>
      obtain ⟨s', hstep, h'⟩ := h.freesItem { m.kernel with sched } hpc hn hawake rfl
        (hall.others _ (by simp) (by simp)) hall.empty
      exact ⟨s', (Reachable.refl s).tail hstep, h'⟩

end Represents

/-- An interrupt wakes the threads that wait for a key, or it leaves the work queue alone. -/
theorem Represents.interrupt {e : GeekOS.Event} (h : Represents code size n m s)
    (hs : m.Step e m') (he : e.IsInterrupt) :
    ∃ s', Reachable (State.Step workqueueThread) s s' ∧ Represents code size n m' s' := by
  obtain ⟨k', acts'⟩ := m'
  obtain ⟨rfl, -, hworkqueue, -⟩ := Machine.exec_interrupt hs.2 he
  cases e with
  | call | resume => exact he.elim
  | timer =>
    have hsame : ∀ q, k'.sched.queue (.wait q) = m.kernel.sched.queue (.wait q) := fun q =>
      (Machine.exec_moves hs.2).queue_wait_eq (by simp [Machine.Allows]) (by simp [Machine.Allows])
    exact ⟨s, .refl s, h.quiet _ hworkqueue (hsame .work) fun u _ => iff_of_eq
      (congrArg (u ∈ ·) (hsame .heap))⟩
  | keyboard keycode =>
    have hexec := hs.2
    simp only [Machine.exec, bind_eq_ok, pure_eq_ok] at hexec
    obtain ⟨k, hk, sched, hreturn, hk'⟩ := hexec
    obtain ⟨rfl, -⟩ := Machine.mk.inj hk'
    have hsame := intHandleReturn_queue_wait hreturn
    rcases Machine.keyboardIntHandler_eq_ok.mp hk with ⟨-, rfl⟩ | ⟨code, sched₁, -, hwakeup, rfl⟩
    · exact ⟨s, .refl s, h.quiet _ rfl (hsame .work) fun u _ => iff_of_eq
        (congrArg (u ∈ ·) (hsame .heap))⟩
    · -- a key wakes everybody in `s_waitqueue`, the workqueue thread with the others
      have hall := threadWakeup_wakesAll hwakeup
      obtain ⟨s', hstep, h'⟩ := h.wakesAll _ hworkqueue ((hsame .work).trans hall.empty)
        ((hsame .heap).trans (hall.others _ (by simp) (by simp)))
      exact ⟨s', (Reachable.refl s).tail hstep, h'⟩

/-- A step of the machine is matched by steps in memory, or by none. -/
theorem Represents.step {e : GeekOS.Event} (h : Represents code size n m s) (hc : WorkControl m)
    (hp : Placed [m.current] m.kernel.sched) (hs : m.Step e m') (hn : n ≤ size) :
    ∃ s', Reachable (State.Step workqueueThread) s s' ∧ Represents code size (n + 1) m' s' := by
  rcases Machine.step_cases hs with ⟨he, -⟩ | ⟨a, rfl, hnil, hcall, rfl⟩ |
    ⟨memory, a, rest, acts, k', rfl, hacts, hk, rfl⟩
  · obtain ⟨s', hr, h'⟩ := h.interrupt hs he
    exact ⟨s', hr, h'.mono (Nat.le_succ n)⟩
  · -- the workqueue thread always has its loop in front of it
    have ht : m.current ≠ workqueueThread := by
      intro hcur
      have hat := h.worker
      rw [← hcur, hnil] at hat
      cases hat
    have hout := (h.schedulesAt hnil).eq_outside (by simp)
    obtain ⟨s', hr, h'⟩ := h.control (l := [a]) ht
      (fun q => hp.outside _ (List.mem_singleton_self _) _) hout fun item iflag hl => by
        obtain rfl := by simpa using hl
        cases hcall
    exact ⟨s', hr, h'.mono (Nat.le_succ n)⟩
  · by_cases hcur : m.current = workqueueThread
    · obtain ⟨s', hr, h'⟩ := h.workerAct hp hacts hk hcur hn
      exact ⟨s', hr, h'.mono (Nat.le_succ n)⟩
    · by_cases hscheduling : a.isScheduling = true
      · exact h.schedule hp hacts hk hc hscheduling
      · have hworker : a.isWorker = false := by
          by_contra hworker
          exact hcur (hc.worker _ a (hacts ▸ List.mem_cons_self) (by simpa using hworker))
        obtain ⟨s', hr, h'⟩ := h.act hp hacts hk hc (by simpa using hscheduling) hworker
        exact ⟨s', hr, h'.mono (Nat.le_succ n)⟩

/-- Before the first call, with a heap of `size` bytes. -/
def start (size : ℕ) : State ThreadId := { initial with gHeapend := size }

theorem represents_boot : Represents code size 0 boot (start size) where
  heap := ⟨rfl, rfl⟩
  items i hi := absurd rfl hi
  inv := ⟨[], [], State.Initial.inv
    ⟨fun _ => rfl, rfl, rfl, fun _ => rfl, rfl, rfl, rfl, rfl, rfl⟩⟩
  workqueue := rfl
  sWaitqueue := (boot_wait .work).symm
  sHeapWaitqueue t := by simp [start, initial, Scheduling.isAlloc]
  scheduling t := .outside fun a ha => by
    rcases mem_boot_acts (List.mem_of_mem_head? ha) with rfl | rfl <;> rfl
  worker := .loop false

/-- Every run of the machine in which only `workqueue.c`, `keyboard.c` and `mem.c` use their two
queues is matched by a run in memory, in a heap with an address for every step. The pointers there
lead through the items of the machine's work queue, and the workqueue thread is in the callback of
the same work. -/
theorem represents_of_run {tr : List (Machine × GeekOS.Event)} (hr : Run Machine.Step boot tr m)
    (he : ∀ p ∈ tr, p.2.usesWorkQueues = false) (hsize : tr.length ≤ size) :
    ∃ s, Reachable (State.Step workqueueThread) (start size) s ∧
      Represents code size tr.length m s := by
  have hI : WorkControl m ∧ ∃ s, Reachable (State.Step workqueueThread) (start size) s ∧
      Represents code size tr.length m s := by
    induction hr with
    | nil => exact ⟨workControl_boot, _, .refl _, represents_boot⟩
    | @snoc m m' tr e hr hs ih =>
      rw [List.length_append, List.length_singleton] at hsize ⊢
      obtain ⟨hc, s, hreach, h⟩ := ih (fun p hp => he p (List.mem_append_left _ hp)) (by omega)
      obtain ⟨s', ⟨tr', hr'⟩, h'⟩ := h.step hc (reachable_placed hr.reachable) hs (by omega)
      have hlast := he (m, e) (List.mem_append_right _ (List.mem_singleton_self _))
      exact ⟨hc.step hs hlast, s', hreach.run hr', h'⟩
  exact hI.2

end Workqueue

end GeekOS
