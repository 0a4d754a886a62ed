import GeekOS.Heap.Run
import GeekOS.Library.Threads

/-!
# Allocating memory in threads

`mem_alloc` and `mem_free` of `mem.c` in any number of threads. A thread that has come past
`int_begin_atomic` runs up to `int_end_atomic`, except that `thread_wait` gives the processor to
others; `malloc` and `free` are one step each. The buffer is filled with zeroes byte by byte,
while other threads run.

* `Outline`: what holds where a thread is, and `Coherent`: the invariant;
* `allocations_of_run`: a buffer is filled with zeroes when it is returned, no thread stores into one
  that another call is at work with, the assertions hold, and nobody sleeps for memory that there
  is.
-/

namespace GeekOS.Memory.HeapAlloc

open Result Threads Arena Heap

/-- Where a thread is in `mem_alloc`. -/
inductive AllocPoint
  /-- At `int_begin_atomic`. -/
  | begin
  /-- At the call of `malloc`. -/
  | malloc
  /-- In `thread_wait`, in front of `thread_queue_append`. -/
  | sleep
  /-- In `thread_schedule`, asleep or runnable. -/
  | asleep
  /-- At `int_end_atomic`. -/
  | leave (buf : ℕ)
  /-- In `memset`, where `i` bytes have been stored. -/
  | fill (buf i : ℕ)
  deriving DecidableEq, Repr

/-- Where it is in `mem_free`. -/
inductive FreePoint
  /-- At the test for null and the assertion. -/
  | check
  /-- At `int_begin_atomic`. -/
  | begin
  /-- At the call of `free`. -/
  | free
  /-- At the test of the loop in `thread_wakeup`. -/
  | wakeup
  /-- At `int_end_atomic`. -/
  | leave
  deriving DecidableEq, Repr

/-- Where a thread is. -/
inductive Pc
  | idle
  | alloc (p : AllocPoint) (size : ℕ)
  | free (p : FreePoint) (a : ℕ)
  deriving DecidableEq, Repr

/-- The points where the thread runs with interrupts disabled. -/
def Pc.Atomic : Pc → Prop
  | .alloc .malloc _ | .alloc .sleep _ | .alloc (.leave _) _ => True
  | .free .free _ | .free .wakeup _ | .free .leave _ => True
  | _ => False

instance : DecidablePred Pc.Atomic := fun p => by
  unfold Pc.Atomic
  split <;> infer_instance

/-- The points where the thread is at work with the buffer at `a`. -/
def Pc.Has : Pc → ℕ → Prop
  | .alloc (.leave buf) _, a | .alloc (.fill buf _) _, a => buf = a
  | .free .check b, a | .free .begin b, a | .free .free b, a => b = a ∧ a ≠ 0
  | _, _ => False

/-- The heap, `s_heap_waitqueue`, the threads and the processor. -/
structure State (T : Type) where
  mem : Heap.State
  waitqueue : List T
  pc : T → Pc
  /-- The thread that runs with interrupts disabled. -/
  atomic : Option T
  /-- History: what `mem_alloc` has returned and `mem_free` has not been given. -/
  handed : List ℕ

/-- What halts the kernel. -/
inductive AllocFault
  /-- A loop of the heap does not end. -/
  | endless
  /-- `((char *) p) >= g_heapstart && ((char *) p) < g_heapend`. -/
  | outside
  /-- `!int_enabled()`. -/
  | intEnabled
  deriving DecidableEq, Repr

/-- What can happen next. -/
inductive Event (T : Type)
  | memAlloc (t : T) (size : ℕ)
  | memFree (t : T) (a : ℕ)
  /-- A thread makes its next step. -/
  | resume (t : T)
  /-- A thread stores a byte into a buffer that it has been given. -/
  | store (t : T) (a i : ℕ) (v : UInt8)
  deriving DecidableEq, Repr

variable {T : Type}

/-- The thread that comes. -/
def Event.thread : Event T → T
  | .memAlloc t _ | .memFree t _ | .resume t | .store t _ _ _ => t

variable [DecidableEq T]

namespace State

variable (s : State T)

/-- A thread comes to its next point. -/
def goto (t : T) (p : Pc) : State T :=
  { s with pc := Function.update s.pc t p, atomic := ownerAt Pc.Atomic t p }

/-- What the heap does at an event of its own. -/
def heapExec (e : Heap.Event) : Except AllocFault Heap.State :=
  match s.mem.exec e with
  | .ok mem => pure mem
  | .error .endless => .error .endless

/-- The next step in `mem_alloc`. -/
def memAlloc (t : T) (size : ℕ) : AllocPoint → Except AllocFault (State T)
  | .begin => pure (s.goto t (.alloc .malloc size))
  | .malloc =>
      match s.mem.heap.malloc rounds size with
      | none => .error .endless
      | some (buf, heap) =>
          if buf = 0 then pure { s.goto t (.alloc .sleep size) with mem := { s.mem with heap } }
          else
            let objects := ⟨buf, List.replicate size none⟩ :: s.mem.objects
            pure { s.goto t (.alloc (.leave buf) size) with mem := { heap, objects } }
  | .sleep => do
      require (s.atomic = some t) .intEnabled
      pure { s.goto t (.alloc .asleep size) with waitqueue := s.waitqueue ++ [t] }
  | .asleep => pure (s.goto t (.alloc .malloc size))
  | .leave buf => pure (s.goto t (.alloc (.fill buf 0) size))
  | .fill buf i =>
      if i < size then do
        let mem ← s.heapExec (.store buf i 0)
        pure { s.goto t (.alloc (.fill buf (i + 1)) size) with mem }
      else pure { s.goto t .idle with handed := buf :: s.handed }

/-- The next step in `mem_free`. -/
def memFree (t : T) (a : ℕ) : FreePoint → Except AllocFault (State T)
  | .check =>
      if a = 0 then pure (s.goto t .idle)
      else do
        require (s.mem.heap.heapstart ≤ a ∧ a < s.mem.heap.heapend) .outside
        pure (s.goto t (.free .begin a))
  | .begin => pure (s.goto t (.free .free a))
  | .free => do
      let mem ← s.heapExec (.free a)
      pure { s.goto t (.free .wakeup a) with mem }
  | .wakeup =>
      match s.waitqueue with
      | [] => pure (s.goto t (.free .leave a))
      | _ :: waitqueue => do
          -- `thread_wakeup_one`
          require (s.atomic = some t) .intEnabled
          pure { s.goto t (.free .wakeup a) with waitqueue }
  | .leave => pure (s.goto t .idle)

/-- The next step of a thread. -/
def resume (t : T) : Except AllocFault (State T) :=
  match s.pc t with
  | .idle => pure s
  | .alloc p size => s.memAlloc t size p
  | .free p a => s.memFree t a p

/-- Carry out an event. What is passed to `mem_free` is not the caller's any more. -/
def exec : Event T → Except AllocFault (State T)
  | .memAlloc t size => pure (s.goto t (.alloc .begin size))
  | .memFree t a => pure { s.goto t (.free .check a) with handed := s.handed.erase a }
  | .resume t => s.resume t
  | .store t a i v => do
      let mem ← s.heapExec (.store a i v)
      pure { s.goto t .idle with mem }

/-- The event can come now: interrupts are enabled or it is the next of the thread that has disabled
them, and no thread that sleeps runs. Threads store into and free buffers that they have been
given. -/
def Enabled : Event T → Prop
  | .memAlloc t size => Ready t s.atomic ∧ s.pc t = .idle ∧ size < 2 ^ 32
  | .memFree t a => Ready t s.atomic ∧ s.pc t = .idle ∧ (a = 0 ∨ a ∈ s.handed)
  | .resume t => Ready t s.atomic ∧ s.pc t ≠ .idle ∧ t ∉ s.waitqueue
  | .store t a i v =>
      Ready t s.atomic ∧ s.pc t = .idle ∧ a ∈ s.handed ∧ s.mem.Enabled (.store a i v)

instance (e : Event T) : Decidable (s.Enabled e) := by
  induction e using Event.casesOn <;> unfold Enabled <;> infer_instance

/-- One step. -/
def Step : State T → Event T → State T → Prop := TransitionSystem.stepOf Enabled exec

omit [DecidableEq T] in
/-- The heap is a new one, and nobody runs in the two functions. -/
structure Initial : Prop where
  mem : s.mem.Initial
  waitqueue : s.waitqueue = []
  pc : ∀ t, s.pc t = .idle
  atomic : s.atomic = none
  handed : s.handed = []

/-! ## What a step does -/

/-- The calls and the steps of a thread that can run, with the states they lead to. -/
inductive Access (t : T) : Pc → State T → Prop
  | allocCall {size : ℕ} (h : size < 2 ^ 32) : Access t .idle (s.goto t (.alloc .begin size))
  | freeCall {a : ℕ} (h : a = 0 ∨ a ∈ s.handed) :
      Access t .idle { s.goto t (.free .check a) with handed := s.handed.erase a }
  | store {a i : ℕ} {v : UInt8} {mem : Heap.State} (ha : a ∈ s.handed)
      (h : Heap.State.Step s.mem (.store a i v) mem) : Access t .idle { s.goto t .idle with mem }
  | begin {size : ℕ} : Access t (.alloc .begin size) (s.goto t (.alloc .malloc size))
  | null {size : ℕ} {heap : Heap} (h : s.mem.heap.malloc rounds size = some (0, heap)) :
      Access t (.alloc .malloc size)
        { s.goto t (.alloc .sleep size) with mem := { s.mem with heap } }
  | malloc {size buf : ℕ} {heap : Heap} (h : s.mem.heap.malloc rounds size = some (buf, heap))
      (hbuf : buf ≠ 0) :
      Access t (.alloc .malloc size) { s.goto t (.alloc (.leave buf) size) with
        mem := { heap, objects := ⟨buf, List.replicate size none⟩ :: s.mem.objects } }
  | sleep {size : ℕ} :
      Access t (.alloc .sleep size)
        { s.goto t (.alloc .asleep size) with waitqueue := s.waitqueue ++ [t] }
  | awake {size : ℕ} (h : t ∉ s.waitqueue) :
      Access t (.alloc .asleep size) (s.goto t (.alloc .malloc size))
  | leave {size buf : ℕ} : Access t (.alloc (.leave buf) size) (s.goto t (.alloc (.fill buf 0) size))
  | fill {size buf i : ℕ} {mem : Heap.State} (hi : i < size)
      (h : s.mem.exec (.store buf i 0) = .ok mem) :
      Access t (.alloc (.fill buf i) size) { s.goto t (.alloc (.fill buf (i + 1)) size) with mem }
  | filled {size buf i : ℕ} (hi : size ≤ i) :
      Access t (.alloc (.fill buf i) size) { s.goto t .idle with handed := buf :: s.handed }
  | checkNull : Access t (.free .check 0) (s.goto t .idle)
  | check {a : ℕ} (ha : a ≠ 0) : Access t (.free .check a) (s.goto t (.free .begin a))
  | freeBegin {a : ℕ} : Access t (.free .begin a) (s.goto t (.free .free a))
  | free {a : ℕ} {mem : Heap.State} (h : s.mem.exec (.free a) = .ok mem) :
      Access t (.free .free a) { s.goto t (.free .wakeup a) with mem }
  | wake {a : ℕ} {u : T} {waitqueue : List T} (h : s.waitqueue = u :: waitqueue) :
      Access t (.free .wakeup a) { s.goto t (.free .wakeup a) with waitqueue }
  | woken {a : ℕ} (h : s.waitqueue = []) :
      Access t (.free .wakeup a) (s.goto t (.free .leave a))
  | freeLeave {a : ℕ} : Access t (.free .leave a) (s.goto t .idle)

variable {s} {s' : State T} {t u : T} {a size : ℕ} {p : Pc} {e : Event T} {bs : List Block}

omit [DecidableEq T] in
theorem heapExec_eq_ok {e : Heap.Event} {mem : Heap.State} (h : s.heapExec e = .ok mem) :
    s.mem.exec e = .ok mem := by
  unfold heapExec at h
  split at h
  next mem' heq =>
    obtain rfl := pure_eq_ok.mp h
    exact heq
  · cases h

theorem Access.of_resume (h : s.resume t = .ok s') (hpc : s.pc t ≠ .idle) (ht : t ∉ s.waitqueue) :
    s.Access t (s.pc t) s' := by
  unfold resume at h
  rcases hp : s.pc t with _ | ⟨q, size⟩ | ⟨q, a⟩ <;> rw [hp] at h
  · exact absurd hp hpc
  · cases q with
    | begin =>
      obtain rfl := pure_eq_ok.mp h
      exact .begin
    | malloc =>
      simp only [memAlloc] at h
      split at h
      · cases h
      next buf heap heq =>
        split at h
        next hbuf =>
          obtain rfl := pure_eq_ok.mp h
          exact .null (hbuf ▸ heq)
        next hbuf =>
          obtain rfl := pure_eq_ok.mp h
          exact .malloc heq hbuf
    | sleep =>
      obtain ⟨-, -, heq⟩ := bind_eq_ok.mp h
      obtain rfl := pure_eq_ok.mp heq
      exact .sleep
    | asleep =>
      obtain rfl := pure_eq_ok.mp h
      exact .awake ht
    | leave buf =>
      obtain rfl := pure_eq_ok.mp h
      exact .leave
    | fill buf i =>
      simp only [memAlloc] at h
      split at h
      next hi =>
        obtain ⟨mem, hmem, heq⟩ := bind_eq_ok.mp h
        obtain rfl := pure_eq_ok.mp heq
        exact .fill hi (heapExec_eq_ok hmem)
      next hi =>
        obtain rfl := pure_eq_ok.mp h
        exact .filled (Nat.le_of_not_lt hi)
  · cases q with
    | check =>
      simp only [memFree] at h
      split at h
      next ha =>
        subst ha
        obtain rfl := pure_eq_ok.mp h
        exact .checkNull
      next ha =>
        obtain ⟨-, -, heq⟩ := bind_eq_ok.mp h
        obtain rfl := pure_eq_ok.mp heq
        exact .check ha
    | begin =>
      obtain rfl := pure_eq_ok.mp h
      exact .freeBegin
    | free =>
      obtain ⟨mem, hmem, heq⟩ := bind_eq_ok.mp h
      obtain rfl := pure_eq_ok.mp heq
      exact .free (heapExec_eq_ok hmem)
    | wakeup =>
      simp only [memFree] at h
      split at h
      next hnil =>
        obtain rfl := pure_eq_ok.mp h
        exact .woken hnil
      next u waitqueue hcons =>
        obtain ⟨-, -, heq⟩ := bind_eq_ok.mp h
        obtain rfl := pure_eq_ok.mp heq
        exact .wake hcons
    | leave =>
      obtain rfl := pure_eq_ok.mp h
      exact .freeLeave

/-- Every step is a call or a step of a thread that can run. -/
theorem Step.access (h : Step s e s') :
    s.Access e.thread (s.pc e.thread) s' ∧ Ready e.thread s.atomic ∧
      (s.pc e.thread = .idle ∨ e.thread ∉ s.waitqueue) := by
  obtain ⟨henabled, hexec⟩ := h
  cases e with
  | memAlloc t size =>
    obtain ⟨hready, hidle, hsize⟩ := henabled
    obtain rfl := pure_eq_ok.mp hexec
    exact ⟨hidle ▸ .allocCall hsize, hready, .inl hidle⟩
  | memFree t a =>
    obtain ⟨hready, hidle, ha⟩ := henabled
    obtain rfl := pure_eq_ok.mp hexec
    exact ⟨hidle ▸ .freeCall ha, hready, .inl hidle⟩
  | resume t =>
    obtain ⟨hready, hpc, ht⟩ := henabled
    exact ⟨.of_resume hexec hpc ht, hready, .inr ht⟩
  | store t a i v =>
    obtain ⟨hready, hidle, ha, hstore⟩ := henabled
    obtain ⟨mem, hmem, heq⟩ := bind_eq_ok.mp hexec
    obtain rfl := pure_eq_ok.mp heq
    refine ⟨?_, hready, .inl hidle⟩
    show s.Access t (s.pc t) _
    rw [hidle]
    exact .store ha ⟨hstore, heapExec_eq_ok hmem⟩

theorem goto_pc_self (q : Pc) : (s.goto t q).pc t = q := Function.update_self ..

/-- A step moves the thread that makes it, and no other one. -/
theorem Access.pc_eq (h : s.Access t p s') :
    ∃ q, s'.pc = Function.update s.pc t q ∧ s'.atomic = ownerAt Pc.Atomic t q := by
  cases h <;> exact ⟨_, rfl, rfl⟩

theorem Access.pc_of_ne (h : s.Access t p s') (hu : u ≠ t) : s'.pc u = s.pc u := by
  obtain ⟨q, hpc, -⟩ := h.pc_eq
  rw [hpc, Function.update_of_ne hu]

/-! ## The invariant -/

omit [DecidableEq T] in
variable (s) in
/-- A call is at work with a buffer, and has stored zeroes into `i` bytes of it. -/
def Holds (a : ℕ) (P : Object → Prop) : Prop :=
  a ∉ s.handed ∧ ∃ o ∈ s.mem.objects, o.addr = a ∧ P o

/-- The first `i` of the `size` bytes of an object are zero. -/
def Zeroed (size i : ℕ) (o : Object) : Prop :=
  o.data.length = size ∧ ∀ j < i, o.data[j]? = some (some 0)

variable (s) in
/-- What holds where a thread is. -/
def Outline : Pc → Prop
  | .alloc (.leave buf) size => size < 2 ^ 32 ∧ s.Holds buf (Zeroed size 0)
  | .alloc (.fill buf i) size => size < 2 ^ 32 ∧ s.Holds buf (Zeroed size i)
  | .alloc _ size => size < 2 ^ 32
  | .free .check a => a = 0 ∨ s.Holds a fun _ => True
  | .free .begin a | .free .free a => a ≠ 0 ∧ s.Holds a fun _ => True
  | _ => True

variable (s) in
/-- A thread waits for this many bytes: it sleeps, or it is about to. -/
def Waits (u : T) (size : ℕ) : Prop :=
  s.pc u = .alloc .sleep size ∨ u ∈ s.waitqueue ∧ s.pc u = .alloc .asleep size

/-- A call of `malloc` would return null. -/
def Refused (heap : Heap) (bs : List Block) (size : ℕ) : Prop :=
  alloc sizeofSize sizeofSize heap.heapend (max size sizeofSize) bs heap.top = none

variable (s) in
/-- The invariant. -/
structure Coherent (bs : List Block) : Prop where
  mem : s.mem.Coherent bs
  atomic : Exclusive Pc.Atomic s.pc s.atomic
  outline : ∀ t, s.Outline (s.pc t)
  one : ∀ t u a, (s.pc t).Has a → (s.pc u).Has a → t = u
  handed : ∀ a ∈ s.handed, ∃ o ∈ s.mem.objects, o.addr = a
  nodup : s.handed.Nodup
  asleep : ∀ t ∈ s.waitqueue, ∃ size, s.pc t = .alloc .asleep size
  waits : ∀ t size, s.Waits t size → Refused s.mem.heap bs size ∨ ∃ u a, s.pc u = .free .wakeup a

omit [DecidableEq T] in
theorem Initial.coherent (h : s.Initial) : s.Coherent [] where
  mem := h.mem.coherent.1
  atomic t := by
    rw [h.pc, h.atomic]
    exact iff_of_false id nofun
  outline t := by
    rw [h.pc]
    trivial
  one t u a ht := by
    rw [h.pc] at ht
    exact ht.elim
  handed a ha := by
    rw [h.handed] at ha
    cases ha
  nodup := by
    rw [h.handed]
    exact List.nodup_nil
  asleep t ht := by
    rw [h.waitqueue] at ht
    cases ht
  waits t size hw := by
    unfold Waits at hw
    rw [h.pc, h.waitqueue] at hw
    simp at hw

omit [DecidableEq T] in
theorem Outline.holds (h : s.Outline p) (ha : p.Has a) : s.Holds a fun _ => True := by
  unfold Pc.Has at ha
  split at ha
  · subst ha
    exact ⟨h.2.1, h.2.2.imp fun o ho => ⟨ho.1, ho.2.1, trivial⟩⟩
  · subst ha
    exact ⟨h.2.1, h.2.2.imp fun o ho => ⟨ho.1, ho.2.1, trivial⟩⟩
  · obtain ⟨rfl, hne⟩ := ha
    exact h.resolve_left hne
  · exact ha.1 ▸ h.2
  · exact ha.1 ▸ h.2
  · exact ha.elim

/-! ### The heap -/

/-- A request that is refused is refused after another call of `malloc`, too. -/
theorem refused_malloc {limit len len' top : ℕ}
    (h : alloc sizeofSize sizeofSize limit len bs top = none) :
    alloc sizeofSize sizeofSize limit len
      (Heap.State.arenaStep limit (bs, top) (.malloc len')).1
      (Heap.State.arenaStep limit (bs, top) (.malloc len')).2 = none := by
  dsimp only [Heap.State.arenaStep]
  split
  next halloc => exact alloc_none_of_alloc h halloc
  · exact h

/-- A call of `malloc` is an event of the heap. -/
theorem malloc_step {mem : Heap.State} {heap : Heap} {buf : ℕ} (hsize : size < 2 ^ 32)
    (h : mem.heap.malloc rounds size = some (buf, heap)) :
    Heap.State.Step mem (.malloc size) (if buf = 0 then { mem with heap } else
      { heap, objects := ⟨buf, List.replicate size none⟩ :: mem.objects }) := by
  refine ⟨hsize, ?_⟩
  rw [Heap.State.exec, h]
  show (if buf = 0 then pure _ else pure _) = _
  split <;> rfl

omit [DecidableEq T] in
theorem Coherent.exists_object (hs : s.Coherent bs) (ha : (s.pc t).Has a) :
    a ∉ s.handed ∧ ∃ o ∈ s.mem.objects, o.addr = a := by
  obtain ⟨hnot, o, ho, haddr, -⟩ := (hs.outline t).holds ha
  exact ⟨hnot, o, ho, haddr⟩

omit [DecidableEq T] in
/-- An event of the heap that frees nothing serves no request that was refused before. -/
theorem Coherent.heap_step {e : Heap.Event} {mem : Heap.State} (hs : s.Coherent bs)
    (hstep : Heap.State.Step s.mem e mem) (he : ∀ a, e ≠ .free a) :
    ∃ bs', mem.Coherent bs' ∧ ∀ size, Refused s.mem.heap bs size → Refused mem.heap bs' size := by
  obtain ⟨hmem, htop, -, hend⟩ := hs.mem.step hstep
  refine ⟨_, hmem, ?_⟩
  intro size hrefused
  unfold Refused
  rw [htop, hend]
  cases e with
  | malloc len => exact refused_malloc hrefused
  | free a => exact absurd rfl (he a)
  | store a i v => exact hrefused

/-- What becomes of the heap, and of the requests that are refused. -/
theorem Access.mem (h : s.Access t p s') (hs : s.Coherent bs) (hp : s.pc t = p) :
    ∃ bs', s'.mem.Coherent bs' ∧ ∀ size, Refused s.mem.heap bs size →
      Refused s'.mem.heap bs' size ∨ ∃ a, s'.pc t = .free .wakeup a := by
  have houtline : s.Outline p := hp ▸ hs.outline t
  cases h with
  | store _ hstep =>
    obtain ⟨bs', hmem, hkeep⟩ := hs.heap_step hstep nofun
    exact ⟨bs', hmem, fun size hr => .inl (hkeep size hr)⟩
  | null heq =>
    obtain ⟨bs', hmem, hkeep⟩ := hs.heap_step (malloc_step houtline heq) nofun
    exact ⟨bs', hmem, fun size hr => .inl (hkeep size hr)⟩
  | malloc heq hbuf =>
    have hstep := malloc_step houtline heq
    rw [if_neg hbuf] at hstep
    obtain ⟨bs', hmem, hkeep⟩ := hs.heap_step hstep nofun
    exact ⟨bs', hmem, fun size hr => .inl (hkeep size hr)⟩
  | @fill size buf i mem hi heq =>
    obtain ⟨-, -, o, ho, haddr, hlength, -⟩ := houtline
    have hstep : Heap.State.Step s.mem (.store buf i 0) mem :=
      ⟨⟨o, ho, haddr, hlength ▸ hi⟩, heq⟩
    obtain ⟨bs', hmem, hkeep⟩ := hs.heap_step hstep nofun
    exact ⟨bs', hmem, fun size hr => .inl (hkeep size hr)⟩
  | @free a mem heq =>
    -- there may be memory again for somebody who sleeps: the thread is about to wake them
    obtain ⟨-, -, o, ho, haddr, -⟩ := houtline
    have henabled : s.mem.Enabled (.free a) := Or.inr ⟨o, ho, haddr⟩
    obtain ⟨hmem, -⟩ := hs.mem.step ⟨henabled, heq⟩
    exact ⟨_, hmem, fun _ _ => .inr ⟨a, Function.update_self ..⟩⟩
  | _ => exact ⟨bs, hs.mem, fun _ hr => .inl hr⟩

omit [DecidableEq T] in
/-- No object has a null pointer. -/
theorem Coherent.addr_ne_zero (hs : s.Coherent bs) {o : Object} (ho : o ∈ s.mem.objects) :
    o.addr ≠ 0 := by
  obtain ⟨b, hb, -, haddr, -⟩ := hs.mem.block o ho
  have hpos := (hs.mem.represents.lt hb).1
  unfold Block.payload at haddr
  omega

/-- The objects that a thread has nothing to do with are what they were. -/
theorem Access.mem_objects (h : s.Access t p s') (hs : s.Coherent bs) (hp : s.pc t = p) {o : Object}
    (ho : o ∈ s.mem.objects) (hnot : o.addr ∉ s.handed) (hhas : ¬p.Has o.addr) :
    o ∈ s'.mem.objects := by
  cases h with
  | @store a i v mem ha hstep =>
    obtain rfl := pure_eq_ok.mp hstep.2
    refine List.mem_map.mpr ⟨o, ho, if_neg ?_⟩
    rintro rfl
    exact hnot ha
  | malloc => exact List.mem_cons_of_mem _ ho
  | @fill size buf i mem hi heq =>
    obtain rfl := pure_eq_ok.mp heq
    exact List.mem_map.mpr ⟨o, ho, if_neg (Ne.symm hhas)⟩
  | @free a mem heq =>
    simp only [Heap.State.exec] at heq
    split at heq
    · cases heq
    · obtain rfl := pure_eq_ok.mp heq
      refine List.mem_filter.mpr ⟨ho, decide_eq_true fun haddr => hhas ⟨haddr.symm, ?_⟩⟩
      exact hs.addr_ne_zero ho
  | _ => exact ho

theorem Access.of_mem_handed (h : s.Access t p s') (ha : a ∈ s'.handed) :
    a ∈ s.handed ∨ p.Has a := by
  cases h with
  | freeCall => exact .inl (List.mem_of_mem_erase ha)
  | filled =>
    rcases List.mem_cons.mp ha with rfl | ha
    · exact .inr rfl
    · exact .inl ha
  | _ => exact .inl ha

/-- What a thread is at work with, it has been at work with, or had been handed out, or is new. -/
theorem Access.of_has (h : s.Access t p s') (hs : s.Coherent bs) (hp : s.pc t = p)
    (ha : (s'.pc t).Has a) :
    p.Has a ∨ a ∈ s.handed ∨ ∀ o ∈ s.mem.objects, o.addr ≠ a := by
  have hmem := h.mem hs hp
  cases h with
  | freeCall h =>
    obtain ⟨rfl, hne⟩ : _ = a ∧ a ≠ 0 := by simpa only [goto_pc_self, Pc.Has] using ha
    exact .inr (.inl (h.resolve_left hne))
  | malloc heq hbuf =>
    obtain rfl : _ = a := by simpa only [goto_pc_self, Pc.Has] using ha
    obtain ⟨bs', hmem, -⟩ := hmem
    refine .inr (.inr fun o ho haddr => ?_)
    exact (List.nodup_cons.mp hmem.nodup).1 (List.mem_map.mpr ⟨o, ho, haddr⟩)
  | leave | fill | check | freeBegin => exact .inl (by simpa only [goto_pc_self, Pc.Has] using ha)
  | _ => simp only [goto_pc_self, Pc.Has] at ha

/-! ### The threads -/

omit [DecidableEq T] in
/-- What holds at a point depends on the buffer that the thread is at work with. -/
theorem Outline.congr {q : Pc} (h : s.Outline q)
    (hframe : ∀ a, q.Has a → a ∉ s.handed →
      a ∉ s'.handed ∧ ∀ o ∈ s.mem.objects, o.addr = a → o ∈ s'.mem.objects) : s'.Outline q := by
  have hholds : ∀ {a : ℕ} {P : Object → Prop}, q.Has a → s.Holds a P → s'.Holds a P := by
    rintro a P hq ⟨hnot, o, ho, haddr, hP⟩
    obtain ⟨hnot', hobjects⟩ := hframe a hq hnot
    exact ⟨hnot', o, hobjects o ho haddr, haddr, hP⟩
  unfold Outline at h ⊢
  split at h
  · exact ⟨h.1, hholds rfl h.2⟩
  · exact ⟨h.1, hholds rfl h.2⟩
  · exact h
  next a =>
    by_cases ha : a = 0
    · exact .inl ha
    · exact .inr (hholds ⟨rfl, ha⟩ (h.resolve_left ha))
  · exact ⟨h.1, hholds ⟨rfl, h.1⟩ h.2⟩
  · exact ⟨h.1, hholds ⟨rfl, h.1⟩ h.2⟩
  · trivial

theorem Access.outline_other (h : s.Access t p s') (hs : s.Coherent bs) (hp : s.pc t = p)
    (hut : u ≠ t) : s'.Outline (s.pc u) := by
  refine (hs.outline u).congr fun a ha hnot => ?_
  have hhas : ¬p.Has a := fun h => hut (hs.one u t a ha (hp ▸ h))
  refine ⟨fun hmem => ?_, ?_⟩
  · exact (h.of_mem_handed hmem).elim hnot hhas
  · rintro o ho rfl
    exact h.mem_objects hs hp ho hnot hhas

theorem Access.outline_self (h : s.Access t p s') (hs : s.Coherent bs) (hp : s.pc t = p) :
    s'.Outline (s'.pc t) := by
  have houtline : s.Outline p := hp ▸ hs.outline t
  have hmem := h.mem hs hp
  cases h with
  | allocCall hsize =>
    rw [goto_pc_self]
    exact hsize
  | @freeCall a ha =>
    show State.Outline _ ((s.goto t _).pc t)
    rw [goto_pc_self]
    refine ha.imp_right fun ha => ⟨hs.nodup.not_mem_erase, ?_⟩
    obtain ⟨o, ho, haddr⟩ := hs.handed a ha
    exact ⟨o, ho, haddr, trivial⟩
  | begin | null | sleep | awake =>
    show State.Outline _ ((s.goto t _).pc t)
    rw [goto_pc_self]
    exact houtline
  | @malloc size buf heap heq hbuf =>
    show State.Outline _ ((s.goto t _).pc t)
    rw [goto_pc_self]
    refine ⟨houtline, ?_, _, List.mem_cons_self, rfl, List.length_replicate, by simp⟩
    -- what has been handed out has an object already
    intro hhanded
    obtain ⟨bs', hmem, -⟩ := hmem
    obtain ⟨o, ho, haddr⟩ := hs.handed buf hhanded
    exact (List.nodup_cons.mp hmem.nodup).1 (List.mem_map.mpr ⟨o, ho, haddr⟩)
  | leave =>
    rw [goto_pc_self]
    exact houtline
  | @fill size buf i mem hi heq =>
    obtain rfl := pure_eq_ok.mp heq
    show State.Outline _ ((s.goto t _).pc t)
    rw [goto_pc_self]
    obtain ⟨hsize, hnot, o, ho, haddr, hlength, hzero⟩ := houtline
    refine ⟨hsize, hnot, _, List.mem_map_of_mem ho, ?_⟩
    rw [Heap.State.storeObject, if_pos haddr]
    refine ⟨haddr, List.length_set.trans hlength, ?_⟩
    intro j hj
    rcases Nat.lt_succ_iff_lt_or_eq.mp hj with hj | rfl
    · rw [List.getElem?_set_ne (by omega)]
      exact hzero j hj
    · exact List.getElem?_set_self (hlength ▸ hi)
  | check ha =>
    rw [goto_pc_self]
    exact ⟨ha, houtline.resolve_left ha⟩
  | freeBegin =>
    rw [goto_pc_self]
    exact houtline
  | _ =>
    show State.Outline _ ((s.goto t _).pc t)
    rw [goto_pc_self]
    trivial

theorem Access.one (h : s.Access t p s') (hs : s.Coherent bs) (hp : s.pc t = p) (hut : u ≠ t)
    (ht : (s'.pc t).Has a) (hu : (s.pc u).Has a) : False := by
  obtain ⟨hnot, o, ho, haddr⟩ := hs.exists_object hu
  rcases h.of_has hs hp ht with hmine | hhanded | hfresh
  · exact hut (hs.one u t a hu (hp ▸ hmine))
  · exact hnot hhanded
  · exact hfresh o ho haddr

theorem Access.handed (h : s.Access t p s') (hs : s.Coherent bs) (hp : s.pc t = p)
    (ha : a ∈ s'.handed) : ∃ o ∈ s'.mem.objects, o.addr = a := by
  have houtline : s.Outline p := hp ▸ hs.outline t
  have hstore : ∀ {b i : ℕ} {v : UInt8}, a ∈ s.handed →
      ∃ o ∈ s.mem.objects.map (Heap.State.storeObject b i v), o.addr = a := by
    intro b i v ha
    obtain ⟨o, ho, rfl⟩ := hs.handed a ha
    refine ⟨_, List.mem_map_of_mem ho, ?_⟩
    unfold Heap.State.storeObject
    split <;> rfl
  cases h with
  | freeCall => exact hs.handed a (List.mem_of_mem_erase ha)
  | store _ hstep =>
    obtain rfl := pure_eq_ok.mp hstep.2
    exact hstore ha
  | malloc =>
    obtain ⟨o, ho, haddr⟩ := hs.handed a ha
    exact ⟨o, List.mem_cons_of_mem _ ho, haddr⟩
  | fill _ heq =>
    obtain rfl := pure_eq_ok.mp heq
    exact hstore ha
  | filled =>
    rcases List.mem_cons.mp ha with rfl | ha
    · obtain ⟨-, -, o, ho, haddr, -⟩ := houtline
      exact ⟨o, ho, haddr⟩
    · exact hs.handed a ha
  | @free b mem heq =>
    simp only [Heap.State.exec] at heq
    split at heq
    · cases heq
    · obtain rfl := pure_eq_ok.mp heq
      obtain ⟨o, ho, rfl⟩ := hs.handed a ha
      refine ⟨o, List.mem_filter.mpr ⟨ho, decide_eq_true ?_⟩, rfl⟩
      -- the buffer that is freed has not been handed out
      rintro rfl
      exact houtline.2.1 ha
  | _ => exact hs.handed a ha

theorem Access.nodup (h : s.Access t p s') (hs : s.Coherent bs) (hp : s.pc t = p) :
    s'.handed.Nodup := by
  have houtline : s.Outline p := hp ▸ hs.outline t
  cases h with
  | freeCall => exact hs.nodup.erase _
  | filled => exact List.nodup_cons.mpr ⟨houtline.2.1, hs.nodup⟩
  | _ => exact hs.nodup

theorem Access.asleep (h : s.Access t p s') (hs : s.Coherent bs) (hp : s.pc t = p)
    (hu : u ∈ s'.waitqueue) : ∃ size, s'.pc u = .alloc .asleep size := by
  have hother : u ∈ s.waitqueue → (∀ size, p = .alloc .asleep size → t ∉ s.waitqueue) →
      ∃ size, s'.pc u = .alloc .asleep size := by
    intro hu hawake
    obtain ⟨size, hpc⟩ := hs.asleep u hu
    have hut : u ≠ t := by
      rintro rfl
      exact hawake size (hp.symm.trans hpc) hu
    exact ⟨size, (h.pc_of_ne hut).trans hpc⟩
  cases h with
  | sleep =>
    rcases List.mem_append.mp hu with hu | hu
    · exact hother hu nofun
    · obtain rfl := List.mem_singleton.mp hu
      exact ⟨_, goto_pc_self _⟩
  | awake hawake => exact hother hu fun _ _ => hawake
  | wake hcons => exact hother (hcons ▸ List.mem_cons_of_mem _ hu) nofun
  | _ => exact hother hu nofun

/-- The thread that has called `malloc` in vain, or that goes to sleep. -/
theorem Access.waits_self (h : s.Access t p s') (hs : s.Coherent bs) (hp : s.pc t = p)
    (hready : Ready t s.atomic) (hw : s'.Waits t size) : Refused s.mem.heap bs size := by
  have houtline : s.Outline p := hp ▸ hs.outline t
  cases h with
  | null heq =>
    obtain rfl : _ = size := by simpa [Waits, goto_pc_self] using hw
    obtain ⟨q, heap, bs', hmalloc, -, -, hcase⟩ := hs.mem.represents.malloc_cases houtline
    rcases hcase with ⟨hnone, -⟩ | ⟨-, hpos⟩
    · exact hnone
    · rw [hmalloc] at heq
      obtain ⟨rfl, -⟩ : q = 0 ∧ _ := by simpa using heq
      exact absurd hpos (Nat.lt_irrefl 0)
  | sleep =>
    obtain rfl : _ = size := by simpa [Waits, goto_pc_self] using hw
    rcases hs.waits t _ (.inl hp) with hrefused | ⟨v, a, hv⟩
    · exact hrefused
    · -- nobody else runs with interrupts disabled
      have hvt : v ≠ t := by
        rintro rfl
        rw [hp] at hv
        cases hv
      exact absurd (hv ▸ trivial) (hs.atomic.not_in hready hvt)
  | _ => simp [Waits, goto_pc_self] at hw

theorem Access.of_mem_waitqueue (h : s.Access t p s') (hut : u ≠ t) (hu : u ∈ s'.waitqueue) :
    u ∈ s.waitqueue := by
  cases h with
  | sleep =>
    rcases List.mem_append.mp hu with hu | hu
    · exact hu
    · exact absurd (List.mem_singleton.mp hu) hut
  | wake hcons => exact hcons ▸ List.mem_cons_of_mem _ hu
  | _ => exact hu

/-- Who waits for memory waits for more than there is, or is about to be woken. -/
theorem Access.waits (h : s.Access t p s') (hs : s.Coherent bs) (hp : s.pc t = p)
    (hready : Ready t s.atomic) {bs' : List Block}
    (hkeep : ∀ size, Refused s.mem.heap bs size →
      Refused s'.mem.heap bs' size ∨ ∃ a, s'.pc t = .free .wakeup a) (hw : s'.Waits u size) :
    Refused s'.mem.heap bs' size ∨ ∃ v a, s'.pc v = .free .wakeup a := by
  have hgoal : Refused s.mem.heap bs size →
      Refused s'.mem.heap bs' size ∨ ∃ v a, s'.pc v = .free .wakeup a :=
    fun hrefused => (hkeep size hrefused).imp_right fun hpc => ⟨t, hpc⟩
  by_cases hut : u = t
  · rw [hut] at hw
    exact hgoal (h.waits_self hs hp hready hw)
  · have hold : s.Waits u size := by
      unfold Waits at hw ⊢
      rw [h.pc_of_ne hut] at hw
      exact hw.imp_right fun hw => ⟨h.of_mem_waitqueue hut hw.1, hw.2⟩
    rcases hs.waits u size hold with hrefused | ⟨v, a, hv⟩
    · exact hgoal hrefused
    -- who wakes the others runs with interrupts disabled, so that it is the thread of the step
    · have hvt : v = t := by
        by_contra hvt
        exact absurd (hv ▸ trivial) (hs.atomic.not_in hready hvt)
      rw [hvt, hp] at hv
      subst hv
      cases h with
      | wake => exact .inr ⟨t, a, goto_pc_self _⟩
      | woken hnil =>
        -- nobody is left to be woken
        rcases hold with hsleep | ⟨hu, -⟩
        · exact absurd (hsleep ▸ trivial) (hs.atomic.not_in hready hut)
        · rw [hnil] at hu
          cases hu

/-- A step keeps the invariant. -/
theorem Access.coherent (h : s.Access t p s') (hs : s.Coherent bs) (hp : s.pc t = p)
    (hready : Ready t s.atomic) : ∃ bs', s'.Coherent bs' := by
  obtain ⟨bs', hmem, hkeep⟩ := h.mem hs hp
  obtain ⟨q, hpc, hatomic⟩ := h.pc_eq
  refine ⟨bs', hmem, ?_, ?_, ?_, ?_, h.nodup hs hp, ?_, ?_⟩
  · rw [hpc, hatomic]
    exact hs.atomic.update hready q
  · intro u
    by_cases hut : u = t
    · rw [hut]
      exact h.outline_self hs hp
    · rw [h.pc_of_ne hut]
      exact h.outline_other hs hp hut
  · intro u v a hu hv
    -- only the thread of the step may have come to a buffer
    by_cases hut : u = t <;> by_cases hvt : v = t
    · rw [hut, hvt]
    · rw [hut] at hu
      rw [h.pc_of_ne hvt] at hv
      exact (h.one hs hp hvt hu hv).elim
    · rw [hvt] at hv
      rw [h.pc_of_ne hut] at hu
      exact (h.one hs hp hut hv hu).elim
    · rw [h.pc_of_ne hut] at hu
      rw [h.pc_of_ne hvt] at hv
      exact hs.one u v a hu hv
  · intro a ha
    exact h.handed hs hp ha
  · intro u hu
    exact h.asleep hs hp hu
  · intro u size hw
    exact h.waits hs hp hready hkeep hw

/-! ## Runs -/

section Runs

open TransitionSystem

/-- No loop is endless, and no assertion fails. -/
theorem Coherent.resume_ok (hs : s.Coherent bs) (t : T) : ∃ s', s.resume t = .ok s' := by
  have hatomic := (hs.atomic t).mp
  have houtline := hs.outline t
  -- the heap faults at no event that it allows
  have hexec : ∀ e : Heap.Event, s.mem.Enabled e → ∃ mem, s.heapExec e = .ok mem := by
    intro e he
    obtain ⟨mem, heq, -⟩ := hs.mem.exec he
    unfold heapExec
    rw [heq]
    exact ⟨mem, rfl⟩
  unfold resume
  rcases hp : s.pc t with _ | ⟨q, size⟩ | ⟨q, a⟩ <;> rw [hp] at hatomic houtline
  · exact ⟨_, rfl⟩
  · cases q with
    | malloc =>
      obtain ⟨buf, heap, -, heq, -⟩ := hs.mem.represents.malloc_cases houtline
      dsimp only [memAlloc]
      rw [heq]
      dsimp only
      split <;> exact ⟨_, rfl⟩
    | sleep =>
      dsimp only [memAlloc]
      rw [require, if_pos (hatomic trivial)]
      exact ⟨_, rfl⟩
    | fill buf i =>
      dsimp only [memAlloc]
      split
      next hi =>
        obtain ⟨-, -, o, ho, haddr, hlength, -⟩ := houtline
        obtain ⟨mem, heq⟩ := hexec (.store buf i 0) ⟨o, ho, haddr, hlength ▸ hi⟩
        rw [heq]
        exact ⟨_, rfl⟩
      · exact ⟨_, rfl⟩
    | _ => exact ⟨_, rfl⟩
  · cases q with
    | check =>
      dsimp only [memFree]
      split
      · exact ⟨_, rfl⟩
      next ha =>
        obtain ⟨-, o, ho, rfl, -⟩ := houtline.resolve_left ha
        obtain ⟨hlo, hhi, -⟩ := hs.mem.sound.inside o ho
        rw [require, if_pos ⟨hlo.le, hhi⟩]
        exact ⟨_, rfl⟩
    | free =>
      obtain ⟨-, -, o, ho, haddr, -⟩ := houtline
      have henabled : s.mem.Enabled (.free a) := Or.inr ⟨o, ho, haddr⟩
      obtain ⟨mem, heq⟩ := hexec (.free a) henabled
      dsimp only [memFree]
      rw [heq]
      exact ⟨_, rfl⟩
    | wakeup =>
      dsimp only [memFree]
      split
      · exact ⟨_, rfl⟩
      · rw [require, if_pos (hatomic trivial)]
        exact ⟨_, rfl⟩
    | _ => exact ⟨_, rfl⟩

omit [DecidableEq T] in
variable (s) in
/-- What the threads may rely on. -/
structure Sound : Prop where
  /-- The objects of the heap lie apart and are what was stored into them. -/
  mem : s.mem.Sound
  /-- A buffer that has been handed out is the buffer of no call. -/
  handed : ∀ t a, (s.pc t).Has a → a ∉ s.handed
  /-- Two calls are not at work with one buffer. -/
  one : ∀ t u a, (s.pc t).Has a → (s.pc u).Has a → t = u
  /-- A buffer is full of zeroes when it is returned. -/
  zero : ∀ t buf i size, s.pc t = .alloc (.fill buf i) size → size ≤ i →
    ∀ j < size, s.mem.heap.mem (buf + j) = 0
  /-- While interrupts are enabled, nobody sleeps for memory that there is. -/
  quiet : s.atomic = none → ∀ t ∈ s.waitqueue, ∃ size heap, s.pc t = .alloc .asleep size ∧
    s.mem.heap.malloc rounds size = some (0, heap)
  /-- No assertion fails. -/
  safe : ∀ t, ∃ s', s.resume t = .ok s'

theorem Coherent.sound (hs : s.Coherent bs) : s.Sound where
  mem := hs.mem.sound
  handed _ _ h := (hs.exists_object h).1
  one := hs.one
  zero t buf i size hp hi j hj := by
    have houtline := hs.outline t
    rw [hp] at houtline
    obtain ⟨-, -, o, ho, rfl, -, hzero⟩ := houtline
    exact hs.mem.data o ho j 0 (hzero j (by omega))
  quiet hnone t ht := by
    obtain ⟨size, hp⟩ := hs.asleep t ht
    have houtline := hs.outline t
    rw [hp] at houtline
    obtain ⟨q, heap, bs', heq, -, -, hcase⟩ := hs.mem.represents.malloc_cases houtline
    refine ⟨size, heap, hp, ?_⟩
    -- nobody is in the loop of `thread_wakeup` while interrupts are enabled
    rcases hs.waits t size (.inr ⟨ht, hp⟩) with hrefused | ⟨v, a, hv⟩
    · rcases hcase with ⟨-, rfl, -, -⟩ | ⟨hsome, -⟩
      · exact heq
      · rw [Refused, hsome] at hrefused
        cases hrefused
    · have hv' := (hs.atomic v).mp (hv ▸ trivial)
      rw [hnone] at hv'
      cases hv'
  safe := hs.resume_ok

/-- However the threads allocate, use and free memory, they may rely on it. -/
theorem allocations_of_run {s₀ : State T} {tr : List (State T × Event T)} (h₀ : s₀.Initial)
    (h : Run Step s₀ tr s) : s.Sound := by
  have hs : ∃ bs, s.Coherent bs := by
    refine h.invariant (I := fun s => ∃ bs, s.Coherent bs) ⟨[], h₀.coherent⟩ ?_
    rintro s e s' ⟨bs, hs⟩ hstep
    obtain ⟨haccess, hready, -⟩ := hstep.access
    exact haccess.coherent hs rfl hready
  obtain ⟨bs, hs⟩ := hs
  exact hs.sound

/-- A heap with room for one chunk, and two threads. -/
def oneChunk : State Bool where
  mem := { heap := { mem := fun _ => 1, heapstart := 16, heapend := 28 }, objects := [] }
  waitqueue := []
  pc _ := .idle
  atomic := none
  handed := []

/-- A thread allocates a buffer and stores into it, the other one sleeps until it is freed. -/
def allocAndFree : List (Event Bool) :=
  [.memAlloc false 2, .resume false, .resume false, .resume false, .resume false, .resume false,
    .resume false, .store false 20 1 7, .memAlloc true 1, .resume true, .resume true,
    .resume true, .memFree false 20, .resume false, .resume false, .resume false, .resume false,
    .resume false, .resume false, .resume true, .resume true, .resume true, .resume true,
    .resume true]

theorem oneChunk_initial : oneChunk.Initial where
  mem := ⟨by decide, by decide, by decide, rfl, rfl, rfl⟩
  waitqueue := rfl
  pc _ := rfl
  atomic := rfl
  handed := rfl

theorem allocations_allocAndFree :
    (after Enabled exec oneChunk allocAndFree).mem.objects = [⟨20, [some 0]⟩] ∧
      (after Enabled exec oneChunk allocAndFree).Sound := by
  have hruns : (runs Enabled exec oneChunk allocAndFree).isSome := by
    decide +kernel
  obtain ⟨tr, hr⟩ := run_after hruns
  exact ⟨by decide +kernel, allocations_of_run oneChunk_initial hr⟩

end Runs

end State

end GeekOS.Memory.HeapAlloc
