import GeekOS.Library.LinkedList
import GeekOS.Library.Threads
import GeekOS.Library.Execution
import GeekOS.Memory.Frame

/-!
# Allocating frames

`mem_alloc_frame` and `mem_free_frame` of `mem.c` in any number of threads, store by store, with the
links of the free list in the frames themselves. While a frame is held, its links and its other
fields are the holder's: page caches keep their lists in them.

There is one processor. A thread that has come past `int_begin_atomic` keeps it up to
`int_end_atomic`, except that `thread_schedule` in `thread_wait` gives it to other threads.

* `Outline`: what holds where a thread is, and `Coherent`: the invariant;
* `sound_of_run`: the free list has the available frames, nobody holds a frame that another thread
  holds, and nobody sleeps while there is a frame;
* `pool_of_run`: the accesses do what `FramePool.memAllocFrame` and `FramePool.memFreeFrame` do at
  once.
-/

namespace GeekOS.Memory.Alloc

open Result Threads LinkedList

/-- Where a thread is in `mem_alloc_frame`. -/
inductive AllocPoint (F : Type)
  /-- At `int_begin_atomic`. -/
  | begin
  /-- At the test of the loop. -/
  | test
  /-- In `thread_wait`, in front of `thread_queue_append`. -/
  | sleep
  /-- In `thread_schedule`, asleep or runnable. -/
  | asleep
  /-- At `frame_list_remove_first`. -/
  | take
  /-- At the stores to `frame->state` and `frame->refcount`. -/
  | store (f : F)
  /-- At `int_end_atomic` and `return frame`. -/
  | leave (f : F)
  deriving DecidableEq, Repr

/-- Where it is in `mem_free_frame`. -/
inductive FreePoint
  /-- At the assertion about `frame->refcount`. -/
  | check
  /-- At `int_begin_atomic`. -/
  | begin
  /-- At `frame->state = FRAME_AVAIL`. -/
  | setState
  /-- At `frame_list_append`. -/
  | append
  /-- At the test of the loop in `thread_wakeup`. -/
  | wakeup
  /-- At `int_end_atomic`. -/
  | leave
  deriving DecidableEq, Repr

/-- Where a thread is. -/
inductive Pc (F : Type)
  | idle
  | alloc (p : AllocPoint F) (initialState : FrameState) (initialRefcount : ℤ)
  | free (p : FreePoint) (f : F)
  deriving DecidableEq, Repr

variable {F T : Type}

/-- The points where the thread runs with interrupts disabled. -/
def Pc.Atomic : Pc F → Prop
  | .alloc .test _ _ | .alloc .sleep _ _ | .alloc .take _ _ => True
  | .alloc (.store _) _ _ | .alloc (.leave _) _ _ => True
  | .free p _ => p ≠ .check ∧ p ≠ .begin
  | _ => False

instance : DecidablePred (Pc.Atomic (F := F)) := fun p => by
  unfold Pc.Atomic
  split <;> infer_instance

/-- The points between taking the frame off the free list and storing its state, and between storing
its state and putting it on the free list. -/
def Pc.InTransit : Pc F → F → Prop
  | .alloc (.store g) _ _, f | .free .append g, f => g = f
  | _, _ => False

theorem Pc.atomic_of_inTransit {p : Pc F} {f : F} (h : p.InTransit f) : p.Atomic := by
  unfold InTransit at h
  split at h
  · trivial
  · exact ⟨nofun, nofun⟩
  · exact h.elim

/-- The points where the thread has the frame, without holding it. -/
def Pc.Has : Pc F → F → Prop
  | .alloc (.store g) _ _, f | .alloc (.leave g) _ _, f => g = f
  | .free p g, f => g = f ∧ p ≠ .wakeup ∧ p ≠ .leave
  | _, _ => False

/-- The frame table, `s_freelist`, `s_frame_waitqueue`, the threads and the processor. -/
structure State (F T : Type) where
  frame : F → Frame
  link : F → Link F
  freelist : Head F
  waitqueue : List T
  pc : T → Pc F
  /-- The thread that runs with interrupts disabled. -/
  atomic : Option T
  /-- History: the threads that the frame has been handed out to and that have not freed it. -/
  holders : F → List T

/-- What halts the kernel. -/
inductive AllocFault
  /-- `frame->refcount == 0`. -/
  | referenced
  /-- `!int_enabled()`. -/
  | intEnabled
  /-- `list->head != 0`, or a null pointer is followed. -/
  | emptyList
  deriving DecidableEq, Repr

/-- What can happen next. -/
inductive Event (F T : Type)
  | allocFrame (t : T) (initialState : FrameState) (initialRefcount : ℤ)
  | freeFrame (t : T) (f : F)
  /-- A thread makes its next access. -/
  | resume (t : T)
  /-- A thread stores into the fields and the links of a frame that is held. -/
  | use (t : T) (f : F) (frame : Frame) (link : Link F)
  /-- A holder passes a frame on to another thread. -/
  | give (t u : T) (f : F)
  deriving DecidableEq, Repr

/-- The thread that comes. -/
def Event.thread : Event F T → T
  | .allocFrame t _ _ | .freeFrame t _ | .resume t | .use t _ _ _ | .give t _ _ => t

variable [DecidableEq F] [DecidableEq T]

namespace State

variable (s : State F T)

/-- A thread comes to its next point. -/
def goto (t : T) (p : Pc F) : State F T :=
  { s with pc := Function.update s.pc t p, atomic := ownerAt Pc.Atomic t p }

/-- Store the fields of a frame. -/
def setFrame (f : F) (frame : Frame) : State F T :=
  { s with frame := Function.update s.frame f frame }

/-- Store the holders of a frame. -/
def setHolders (f : F) (holders : List T) : State F T :=
  { s with holders := Function.update s.holders f holders }

/-- The next access in `mem_alloc_frame`. -/
def allocFrame (t : T) (initialState : FrameState) (initialRefcount : ℤ) :
    AllocPoint F → Except AllocFault (State F T)
  | .begin => pure (s.goto t (.alloc .test initialState initialRefcount))
  | .test =>
      if s.freelist.first = none then
        pure (s.goto t (.alloc .sleep initialState initialRefcount))
      else pure (s.goto t (.alloc .take initialState initialRefcount))
  | .sleep => do
      require (s.atomic = some t) .intEnabled
      pure { s.goto t (.alloc .asleep initialState initialRefcount) with
        waitqueue := s.waitqueue ++ [t] }
  | .asleep => pure (s.goto t (.alloc .test initialState initialRefcount))
  | .take =>
      match removeFirst s.freelist s.link with
      | some (f, freelist, link) =>
          pure { s.goto t (.alloc (.store f) initialState initialRefcount) with freelist, link }
      | none => .error .emptyList
  | .store f =>
      let frame := { s.frame f with state := initialState, refcount := initialRefcount }
      pure ((s.setFrame f frame).goto t (.alloc (.leave f) initialState initialRefcount))
  | .leave f => pure ((s.setHolders f (t :: s.holders f)).goto t .idle)

/-- The next access in `mem_free_frame`. -/
def freeFrame (t : T) (f : F) : FreePoint → Except AllocFault (State F T)
  | .check => do
      require ((s.frame f).refcount = 0) .referenced
      pure (s.goto t (.free .begin f))
  | .begin => pure (s.goto t (.free .setState f))
  | .setState =>
      pure ((s.setFrame f { s.frame f with state := .avail }).goto t (.free .append f))
  | .append =>
      let (freelist, link) := append s.freelist s.link f
      pure { s.goto t (.free .wakeup f) with freelist, link }
  | .wakeup =>
      match s.waitqueue with
      | [] => pure (s.goto t (.free .leave f))
      | _ :: waitqueue => do
          -- `thread_wakeup_one`
          require (s.atomic = some t) .intEnabled
          pure { s.goto t (.free .wakeup f) with waitqueue }
  | .leave => pure (s.goto t .idle)

/-- The next access of a thread. -/
def resume (t : T) : Except AllocFault (State F T) :=
  match s.pc t with
  | .idle => pure s
  | .alloc p initialState initialRefcount => s.allocFrame t initialState initialRefcount p
  | .free p f => s.freeFrame t f p

/-- Carry out an event. A frame that is passed to `mem_free_frame` is not held any more. -/
def exec : Event F T → Except AllocFault (State F T)
  | .allocFrame t initialState initialRefcount =>
      pure (s.goto t (.alloc .begin initialState initialRefcount))
  | .freeFrame t f =>
      pure ((s.setHolders f ((s.holders f).erase t)).goto t (.free .check f))
  | .resume t => s.resume t
  | .use t f frame link =>
      pure ({ s.setFrame f frame with link := Function.update s.link f link }.goto t .idle)
  | .give t u f => pure ((s.setHolders f (u :: (s.holders f).erase t)).goto t .idle)

/-- The event can come now: interrupts are enabled or it is the next of the thread that has disabled
them, and no thread that sleeps runs. A holder frees a frame that has no references, and nobody else
makes a frame available. -/
def Enabled : Event F T → Prop
  | .allocFrame t initialState _ => Ready t s.atomic ∧ s.pc t = .idle ∧ initialState ≠ .avail
  | .freeFrame t f =>
      Ready t s.atomic ∧ s.pc t = .idle ∧ t ∈ s.holders f ∧ (s.frame f).refcount = 0
  | .resume t => Ready t s.atomic ∧ s.pc t ≠ .idle ∧ t ∉ s.waitqueue
  | .use t f frame _ =>
      Ready t s.atomic ∧ s.pc t = .idle ∧ s.holders f ≠ [] ∧ frame.state ≠ .avail
  | .give t _ f => Ready t s.atomic ∧ s.pc t = .idle ∧ t ∈ s.holders f

instance (e : Event F T) : Decidable (s.Enabled e) := by
  induction e using Event.casesOn <;> unfold Enabled <;> infer_instance

/-- One step. -/
def Step : State F T → Event F T → State F T → Prop := TransitionSystem.stepOf Enabled exec

omit [DecidableEq F] [DecidableEq T] in
/-- Nobody runs in the two functions, the free list has the available frames, and each of the others
is held by one thread at most. A thread may sleep if there is no frame. -/
structure Initial : Prop where
  exact : ∃ l, IsList s.freelist s.link l ∧ ∀ f, f ∈ l ↔ (s.frame f).state = .avail
  pc : ∀ t, s.pc t = .idle ∨ ∃ state refcount, s.pc t = .alloc .asleep state refcount ∧ state ≠ .avail
  waitqueue : ∀ t ∈ s.waitqueue, s.pc t ≠ .idle
  awake : s.freelist.first ≠ none → s.waitqueue = []
  atomic : s.atomic = none
  holders : ∀ f, (s.holders f).length ≤ 1
  held : ∀ f, (s.frame f).state = .avail → s.holders f = []

/-! ## What a step does -/

/-- The calls and the accesses of a thread that can run, with the states they lead to. -/
inductive Access (t : T) : Pc F → State F T → Prop
  | allocCall {state : FrameState} {refcount : ℤ} (h : state ≠ .avail) :
      Access t .idle (s.goto t (.alloc .begin state refcount))
  | freeCall {f : F} (hheld : t ∈ s.holders f) (h : (s.frame f).refcount = 0) :
      Access t .idle ((s.setHolders f ((s.holders f).erase t)).goto t (.free .check f))
  | use {f : F} {frame : Frame} {link : Link F} (hheld : s.holders f ≠ [])
      (h : frame.state ≠ .avail) :
      Access t .idle
        ({ s.setFrame f frame with link := Function.update s.link f link }.goto t .idle)
  | give {u : T} {f : F} (hheld : t ∈ s.holders f) :
      Access t .idle ((s.setHolders f (u :: (s.holders f).erase t)).goto t .idle)
  | begin {state : FrameState} {refcount : ℤ} :
      Access t (.alloc .begin state refcount) (s.goto t (.alloc .test state refcount))
  | empty {state : FrameState} {refcount : ℤ} (h : s.freelist.first = none) :
      Access t (.alloc .test state refcount) (s.goto t (.alloc .sleep state refcount))
  | nonempty {state : FrameState} {refcount : ℤ} (h : s.freelist.first ≠ none) :
      Access t (.alloc .test state refcount) (s.goto t (.alloc .take state refcount))
  | sleep {state : FrameState} {refcount : ℤ} :
      Access t (.alloc .sleep state refcount)
        { s.goto t (.alloc .asleep state refcount) with waitqueue := s.waitqueue ++ [t] }
  | awake {state : FrameState} {refcount : ℤ} (h : t ∉ s.waitqueue) :
      Access t (.alloc .asleep state refcount) (s.goto t (.alloc .test state refcount))
  | take {state : FrameState} {refcount : ℤ} {f : F} {freelist : Head F} {link : F → Link F}
      (h : removeFirst s.freelist s.link = some (f, freelist, link)) :
      Access t (.alloc .take state refcount)
        { s.goto t (.alloc (.store f) state refcount) with freelist, link }
  | store {state : FrameState} {refcount : ℤ} {f : F} :
      Access t (.alloc (.store f) state refcount)
        ((s.setFrame f { s.frame f with state, refcount }).goto t (.alloc (.leave f) state refcount))
  | leave {state : FrameState} {refcount : ℤ} {f : F} :
      Access t (.alloc (.leave f) state refcount)
        ((s.setHolders f (t :: s.holders f)).goto t .idle)
  | check {f : F} (h : (s.frame f).refcount = 0) :
      Access t (.free .check f) (s.goto t (.free .begin f))
  | freeBegin {f : F} : Access t (.free .begin f) (s.goto t (.free .setState f))
  | setState {f : F} :
      Access t (.free .setState f)
        ((s.setFrame f { s.frame f with state := .avail }).goto t (.free .append f))
  | append {f : F} :
      Access t (.free .append f)
        { s.goto t (.free .wakeup f) with
          freelist := (LinkedList.append s.freelist s.link f).1
          link := (LinkedList.append s.freelist s.link f).2 }
  | wake {f : F} {u : T} {waitqueue : List T} (h : s.waitqueue = u :: waitqueue) :
      Access t (.free .wakeup f) { s.goto t (.free .wakeup f) with waitqueue }
  | woken {f : F} (h : s.waitqueue = []) :
      Access t (.free .wakeup f) (s.goto t (.free .leave f))
  | freeLeave {f : F} : Access t (.free .leave f) (s.goto t .idle)

variable {s} {s' : State F T} {t u : T} {f : F} {l : List F} {p : Pc F}

theorem Access.of_resume (h : s.resume t = .ok s') (hpc : s.pc t ≠ .idle) (ht : t ∉ s.waitqueue) :
    s.Access t (s.pc t) s' := by
  unfold resume at h
  rcases hp : s.pc t with _ | ⟨q, state, refcount⟩ | ⟨q, f⟩ <;> rw [hp] at h
  · exact absurd hp hpc
  · cases q with
    | begin =>
      obtain rfl := pure_eq_ok.mp h
      exact .begin
    | test =>
      simp only [allocFrame] at h
      split at h
      next hempty =>
        obtain rfl := pure_eq_ok.mp h
        exact .empty hempty
      next hempty =>
        obtain rfl := pure_eq_ok.mp h
        exact .nonempty hempty
    | sleep =>
      obtain ⟨-, -, heq⟩ := bind_eq_ok.mp h
      obtain rfl := pure_eq_ok.mp heq
      exact .sleep
    | asleep =>
      obtain rfl := pure_eq_ok.mp h
      exact .awake ht
    | take =>
      simp only [allocFrame] at h
      split at h
      next f freelist link hfirst =>
        obtain rfl := pure_eq_ok.mp h
        exact .take hfirst
      next => cases h
    | store f =>
      obtain rfl := pure_eq_ok.mp h
      exact .store
    | leave f =>
      obtain rfl := pure_eq_ok.mp h
      exact .leave
  · cases q with
    | check =>
      obtain ⟨_, href, heq⟩ := bind_eq_ok.mp h
      obtain rfl := pure_eq_ok.mp heq
      exact .check (require_eq_ok.mp href)
    | begin =>
      obtain rfl := pure_eq_ok.mp h
      exact .freeBegin
    | setState =>
      obtain rfl := pure_eq_ok.mp h
      exact .setState
    | append =>
      obtain rfl := pure_eq_ok.mp h
      exact .append
    | wakeup =>
      simp only [freeFrame] at h
      split at h
      next hempty =>
        obtain rfl := pure_eq_ok.mp h
        exact .woken hempty
      next hqueue =>
        obtain ⟨-, -, heq⟩ := bind_eq_ok.mp h
        obtain rfl := pure_eq_ok.mp heq
        exact .wake hqueue
    | leave =>
      obtain rfl := pure_eq_ok.mp h
      exact .freeLeave

/-- A step is a call or an access of a thread that can run. -/
theorem Step.access {e : Event F T} (h : Step s e s') :
    s.Access e.thread (s.pc e.thread) s' ∧ Ready e.thread s.atomic ∧
      (s.pc e.thread = .idle ∨ e.thread ∉ s.waitqueue) := by
  obtain ⟨hen, hexec⟩ := h
  cases e with
  | allocFrame t state refcount =>
    obtain rfl := pure_eq_ok.mp hexec
    exact ⟨hen.2.1 ▸ .allocCall hen.2.2, hen.1, .inl hen.2.1⟩
  | freeFrame t f =>
    obtain rfl := pure_eq_ok.mp hexec
    exact ⟨hen.2.1 ▸ .freeCall hen.2.2.1 hen.2.2.2, hen.1, .inl hen.2.1⟩
  | resume t =>
    exact ⟨.of_resume hexec hen.2.1 hen.2.2, hen.1, .inr hen.2.2⟩
  | use t f frame link =>
    obtain rfl := pure_eq_ok.mp hexec
    refine ⟨?_, hen.1, .inl hen.2.1⟩
    rw [show s.pc (Event.use t f frame link).thread = .idle from hen.2.1]
    exact .use hen.2.2.1 hen.2.2.2
  | give t u f =>
    obtain rfl := pure_eq_ok.mp hexec
    refine ⟨?_, hen.1, .inl hen.2.1⟩
    rw [show s.pc (Event.give t u f).thread = .idle from hen.2.1]
    exact .give hen.2.2

/-! ## The invariant -/

/-- What holds where a thread is, with `l` on the free list. -/
def Outline (s : State F T) (l : List F) : Pc F → Prop
  | .idle => True
  | .alloc .sleep state _ => state ≠ .avail ∧ l = []
  | .alloc .take state _ => state ≠ .avail ∧ l ≠ []
  | .alloc (.store f) state _ => state ≠ .avail ∧ (s.frame f).state = .avail
  | .alloc (.leave f) state _ => state ≠ .avail ∧ (s.frame f).state ≠ .avail
  | .alloc _ state _ => state ≠ .avail
  | .free .check f | .free .begin f | .free .setState f =>
      (s.frame f).state ≠ .avail ∧ (s.frame f).refcount = 0
  | .free .append f => (s.frame f).state = .avail
  | .free _ _ => True

/-- In every state that the threads come to, with `l` on the free list. -/
structure Coherent (s : State F T) (l : List F) : Prop where
  list : IsList s.freelist s.link l
  exact : ∀ f, f ∈ l ↔ (s.frame f).state = .avail ∧ ∀ t, ¬(s.pc t).InTransit f
  atomic : Exclusive Pc.Atomic s.pc s.atomic
  outline : ∀ t, s.Outline l (s.pc t)
  asleep : ∀ t ∈ s.waitqueue, ∃ state refcount, s.pc t = .alloc .asleep state refcount
  awake : l ≠ [] → s.waitqueue = [] ∨ ∃ t f, s.pc t = .free .wakeup f
  one : ∀ t u f, (s.pc t).Has f → (s.pc u).Has f → t = u
  handed : ∀ t f, (s.pc t).Has f → s.holders f = []
  holders : ∀ f, (s.holders f).length ≤ 1
  held : ∀ f, (s.frame f).state = .avail → s.holders f = []

omit [DecidableEq F] [DecidableEq T] in
theorem Initial.coherent (h : s.Initial) : ∃ l, Coherent s l := by
  obtain ⟨l, hlist, hexact⟩ := h.exact
  have hpc : ∀ t, s.pc t = .idle ∨
      ∃ state refcount, s.pc t = .alloc .asleep state refcount ∧ state ≠ .avail := h.pc
  have hout : ∀ t, ¬(s.pc t).Atomic ∧ (∀ f, ¬(s.pc t).InTransit f) ∧ ∀ f, ¬(s.pc t).Has f := by
    intro t
    rcases hpc t with hidle | ⟨state, refcount, hasleep, -⟩
    · rw [hidle]
      exact ⟨id, fun _ => id, fun _ => id⟩
    · rw [hasleep]
      exact ⟨id, fun _ => id, fun _ => id⟩
  refine ⟨l, hlist, fun f => ?_, fun t => ?_, fun t => ?_, fun t ht => ?_, fun hl => .inl ?_,
    fun t u f ht => absurd ht ((hout t).2.2 f), fun t f ht => absurd ht ((hout t).2.2 f), h.holders,
    h.held⟩
  · rw [hexact]
    exact (and_iff_left fun t => (hout t).2.1 f).symm
  · rw [h.atomic]
    exact iff_of_false (hout t).1 nofun
  · rcases hpc t with hidle | ⟨state, refcount, hasleep, hstate⟩
    · rw [hidle]
      trivial
    · rw [hasleep]
      exact hstate
  · obtain ⟨state, refcount, hasleep, -⟩ := (hpc t).resolve_left (h.waitqueue t ht)
    exact ⟨state, refcount, hasleep⟩
  · refine h.awake ?_
    rw [← hlist.chain.head?]
    simpa using hl

/-! ### One access -/

section Access

theorem Access.pc_eq (h : s.Access t p s') :
    ∃ q, s'.pc = Function.update s.pc t q ∧ s'.atomic = ownerAt Pc.Atomic t q := by
  cases h <;> exact ⟨_, rfl, rfl⟩

theorem Access.pc_of_ne (h : s.Access t p s') (hut : u ≠ t) : s'.pc u = s.pc u := by
  obtain ⟨q, hpc, -⟩ := h.pc_eq
  rw [hpc, Function.update_of_ne hut]

/-- An access changes a frame that the thread has or that is held. -/
theorem Access.frame_eq (h : s.Access t p s') (hhas : ¬p.Has f) (hheld : s.holders f = []) :
    s'.frame f = s.frame f := by
  cases h with
  | @use g _ _ hg =>
    have hgf : f ≠ g := by
      rintro rfl
      exact hg hheld
    exact Function.update_of_ne hgf ..
  | @store _ _ g | @setState g =>
    have hgf : f ≠ g := by
      rintro rfl
      simp [Pc.Has] at hhas
    exact Function.update_of_ne hgf ..
  | _ => rfl

/-- Nobody else than a thread that has the frame makes it available. -/
theorem Access.state_ne (h : s.Access t p s') (hhas : ¬p.Has f)
    (hstate : (s.frame f).state ≠ .avail) : (s'.frame f).state ≠ .avail := by
  cases h with
  | @use g frame _ _ hframe =>
    by_cases hfg : f = g
    · simpa [goto, setFrame, hfg] using hframe
    · simpa [goto, setFrame, hfg] using hstate
  | @store _ _ g | @setState g =>
    have hgf : f ≠ g := by
      rintro rfl
      simp [Pc.Has] at hhas
    simpa [goto, setFrame, hgf] using hstate
  | _ => exact hstate

/-- Whom an access makes a holder, or takes from the holders. -/
theorem Access.holders_eq (h : s.Access t p s') (hhas : ¬p.Has f) (hheld : s.holders f = []) :
    s'.holders f = [] := by
  cases h with
  | @freeCall g hg | @give _ g hg =>
    have hgf : f ≠ g := by
      rintro rfl
      simp [hheld] at hg
    exact (Function.update_of_ne hgf ..).trans hheld
  | @leave _ _ g =>
    have hgf : f ≠ g := by
      rintro rfl
      simp [Pc.Has] at hhas
    exact (Function.update_of_ne hgf ..).trans hheld
  | _ => exact hheld

/-- The free list after an access from `p`. -/
def listAfter (l : List F) : Pc F → List F
  | .alloc .take _ _ => l.tail
  | .free .append f => l ++ [f]
  | _ => l

omit [DecidableEq F] [DecidableEq T] in
theorem Coherent.not_mem_of_held (hs : s.Coherent l) (h : s.holders f ≠ []) : f ∉ l := fun hf =>
  h (hs.held f ((hs.exact f).mp hf).1)

omit [DecidableEq F] [DecidableEq T] in
theorem Coherent.first_eq (hs : s.Coherent l) : s.freelist.first = l.head? :=
  hs.list.chain.head?.symm

omit [DecidableEq T] in
/-- `frame_list_remove_first` takes the first frame of the list. -/
theorem Coherent.of_removeFirst (hs : s.Coherent l) {freelist : Head F} {link : F → Link F}
    (h : removeFirst s.freelist s.link = some (f, freelist, link)) :
    l = f :: l.tail ∧ IsList freelist link l.tail := by
  cases l with
  | nil =>
    have hfirst : s.freelist.first = none := hs.first_eq
    simp [removeFirst, hfirst] at h
  | cons g rest =>
    obtain ⟨freelist', link', hremove, hlist⟩ := removeFirst_isList hs.list
    rw [h] at hremove
    obtain ⟨rfl, rfl, rfl⟩ : f = g ∧ freelist = freelist' ∧ link = link' := by
      simpa using hremove
    exact ⟨rfl, hlist⟩

theorem Access.list (h : s.Access t p s') (hs : s.Coherent l) (hp : s.pc t = p) :
    IsList s'.freelist s'.link (listAfter l p) := by
  cases h with
  | @use g _ _ hheld =>
    -- the links of a frame that is held belong to other lists
    refine hs.list.congr fun n hn => ?_
    have hne : n ≠ g := by
      rintro rfl
      exact hs.not_mem_of_held hheld hn
    exact congrArg Link.next (Function.update_of_ne hne ..)
  | take hremove => exact (hs.of_removeFirst hremove).2
  | @append f =>
    refine append_isList hs.list fun hf => ?_
    -- the frame is not there already: the thread is about to put it there
    have htransit := ((hs.exact f).mp hf).2 t
    rw [hp] at htransit
    exact htransit rfl
  | _ => exact hs.list

omit [DecidableEq F] in
/-- Another thread than the one that comes is not in transit with a frame. -/
theorem Coherent.transit_iff (hs : s.Coherent l) (hready : Ready t s.atomic) {pc : T → Pc F}
    (hpc : ∀ u, u ≠ t → pc u = s.pc u) :
    (∀ u, ¬(pc u).InTransit f) ↔ ¬(pc t).InTransit f := by
  refine ⟨fun h => h t, fun h u => ?_⟩
  by_cases hut : u = t
  · exact hut ▸ h
  · have hout := hs.atomic.not_in hready hut
    rw [hpc u hut]
    intro htransit
    rcases hpu : s.pc u with _ | ⟨q, state, refcount⟩ | ⟨q, g⟩ <;> rw [hpu] at hout htransit
    · exact htransit
    · cases q with
      | store g => exact hout trivial
      | _ => exact htransit
    · cases q with
      | append => exact hout (by simp [Pc.Atomic])
      | _ => exact htransit

theorem Access.exact (h : s.Access t p s') (hs : s.Coherent l) (hp : s.pc t = p)
    (hready : Ready t s.atomic) (f : F) :
    f ∈ listAfter l p ↔ (s'.frame f).state = .avail ∧ ∀ u, ¬(s'.pc u).InTransit f := by
  rw [hs.transit_iff hready fun u hut => h.pc_of_ne hut]
  have hold := hs.exact f
  rw [hs.transit_iff hready fun _ _ => rfl, hp] at hold
  have hpre : s.Outline l p := hp ▸ hs.outline t
  have hne : ∀ g frame, f ≠ g → Function.update s.frame g frame f = s.frame f :=
    fun g frame hfg => Function.update_of_ne hfg ..
  cases h with
  | @use g frame _ hheld hstate =>
    by_cases hfg : f = g
    · subst hfg
      exact iff_of_false (hs.not_mem_of_held hheld) fun hav =>
        hstate (by simpa [goto, setFrame] using hav.1)
    · simpa [goto, setFrame, listAfter, hne _ _ hfg, Pc.InTransit] using hold
  | @take state refcount g _ _ hremove =>
    obtain ⟨hl, -⟩ := hs.of_removeFirst hremove
    have hnodup := hs.list.nodup
    rw [hl, List.mem_cons] at hold
    rw [hl] at hnodup
    by_cases hfg : f = g
    · subst hfg
      exact iff_of_false (List.nodup_cons.mp hnodup).1 fun hav => by simp [goto, Pc.InTransit] at hav
    · simpa [goto, listAfter, hfg, Ne.symm hfg, Pc.InTransit] using hold
  | @store state refcount g =>
    by_cases hfg : f = g
    · subst hfg
      refine iff_of_false (fun hmem => (hold.mp hmem).2 rfl) fun hav => hpre.1 ?_
      simpa [goto, setFrame] using hav.1
    · simpa [goto, setFrame, listAfter, hne _ _ hfg, Ne.symm hfg, Pc.InTransit] using hold
  | @setState g =>
    by_cases hfg : f = g
    · subst hfg
      refine iff_of_false (fun hmem => hpre.1 (hold.mp hmem).1) fun hav => ?_
      simp [goto, Pc.InTransit] at hav
    · simpa [goto, setFrame, listAfter, hne _ _ hfg, Ne.symm hfg, Pc.InTransit] using hold
  | @append g =>
    by_cases hfg : f = g
    · subst hfg
      exact iff_of_true (by simp [listAfter]) ⟨hpre, by simp [goto, Pc.InTransit]⟩
    · simpa [goto, listAfter, hfg, Ne.symm hfg, Pc.InTransit] using hold
  | _ => simpa [goto, setHolders, listAfter, Pc.InTransit] using hold

/-- The access of a thread leads to what holds behind it. -/
theorem Access.outline_self (h : s.Access t p s') (hs : s.Coherent l) (hp : s.pc t = p) :
    s'.Outline (listAfter l p) (s'.pc t) := by
  have hpre : s.Outline l p := hp ▸ hs.outline t
  have hpc : ∀ q, (s.goto t q).pc t = q := fun q => Function.update_self ..
  cases h with
  | allocCall hstate =>
    rw [hpc]
    exact hstate
  | freeCall hheld href =>
    show State.Outline _ _ ((s.goto t _).pc t)
    rw [hpc]
    refine ⟨fun hav => ?_, href⟩
    rw [hs.held _ hav] at hheld
    cases hheld
  | begin | awake | freeBegin =>
    rw [hpc]
    exact hpre
  | empty hempty =>
    rw [hpc]
    rw [hs.first_eq, List.head?_eq_none_iff] at hempty
    exact ⟨hpre, hempty⟩
  | nonempty hnonempty =>
    rw [hpc]
    rw [hs.first_eq, Ne, List.head?_eq_none_iff] at hnonempty
    exact ⟨hpre, hnonempty⟩
  | sleep =>
    show State.Outline _ _ ((s.goto t _).pc t)
    rw [hpc]
    exact hpre.1
  | take hremove =>
    show State.Outline _ _ ((s.goto t _).pc t)
    rw [hpc]
    refine ⟨hpre.1, ?_⟩
    have hl := (hs.of_removeFirst hremove).1
    exact ((hs.exact _).mp (hl ▸ List.mem_cons_self)).1
  | store =>
    show State.Outline _ _ ((s.goto t _).pc t)
    rw [hpc]
    exact ⟨hpre.1, by simpa [goto, setFrame] using hpre.1⟩
  | check href =>
    rw [hpc]
    exact hpre
  | setState =>
    show State.Outline _ _ ((s.goto t _).pc t)
    rw [hpc]
    show (Function.update s.frame _ _ _).state = _
    rw [Function.update_self]
  | use | give | leave | append | wake =>
    show State.Outline _ _ ((s.goto t _).pc t)
    rw [hpc]
    trivial
  | woken | freeLeave =>
    rw [hpc]
    trivial

/-- What holds where another thread is goes on to hold. -/
theorem Access.outline_other (h : s.Access t p s') (hs : s.Coherent l) (hp : s.pc t = p)
    (hready : Ready t s.atomic) (hut : u ≠ t) : s'.Outline (listAfter l p) (s.pc u) := by
  have hpre := hs.outline u
  have hout := hs.atomic.not_in hready hut
  have hone := hs.one u t
  have hhanded := hs.handed u
  rw [hp] at hone
  rcases hpu : s.pc u with _ | ⟨q, state, refcount⟩ | ⟨q, g⟩ <;>
    rw [hpu] at hpre hout hone hhanded
  · trivial
  · cases q with
    | begin | asleep => exact hpre
    | test | sleep | take | store | leave => exact absurd trivial hout
  · cases q with
    | check | begin =>
      have hg : (s.pc u).Has g := by
        rw [hpu]
        exact ⟨rfl, nofun, nofun⟩
      rw [hpu] at hg
      have hframe := h.frame_eq (fun hmine => hut (hone g hg hmine)) (hhanded g hg)
      show (s'.frame g).state ≠ .avail ∧ (s'.frame g).refcount = 0
      rw [hframe]
      exact hpre
    | setState | append | wakeup | leave => exact absurd (by simp [Pc.Atomic]) hout

/-- What an access does to the wait queue. -/
theorem Access.waitqueue_cases (h : s.Access t p s') :
    (∃ state refcount, p = .alloc .sleep state refcount ∧
        s'.pc t = .alloc .asleep state refcount ∧ s'.waitqueue = s.waitqueue ++ [t]) ∨
      s'.waitqueue = s.waitqueue ∨ s'.waitqueue = s.waitqueue.tail := by
  cases h with
  | sleep => exact .inl ⟨_, _, rfl, Function.update_self .., rfl⟩
  | wake hqueue => exact .inr (.inr (by rw [hqueue]; rfl))
  | _ => exact .inr (.inl rfl)

theorem Access.asleep (h : s.Access t p s') (hs : s.Coherent l) (ht : t ∉ s.waitqueue)
    (hu : u ∈ s'.waitqueue) : ∃ state refcount, s'.pc u = .alloc .asleep state refcount := by
  have hold : u ∈ s.waitqueue → ∃ state refcount, s'.pc u = .alloc .asleep state refcount :=
    fun hmem => by
      rw [h.pc_of_ne fun hut => ht (hut ▸ hmem)]
      exact hs.asleep u hmem
  rcases h.waitqueue_cases with ⟨state, refcount, -, hasleep, hqueue⟩ | hqueue | hqueue <;>
    rw [hqueue] at hu
  · rcases List.mem_append.mp hu with hmem | hmem
    · exact hold hmem
    · exact ⟨state, refcount, by rwa [List.mem_singleton.mp hmem]⟩
  · exact hold hu
  · exact hold (List.mem_of_mem_tail hu)

/-- While there is a frame, a thread that sleeps is about to be woken. -/
theorem Access.keeps_awake (h : s.Access t p s') (hs : s.Coherent l) (hp : s.pc t = p)
    (hready : Ready t s.atomic) (hl : listAfter l p ≠ []) :
    s'.waitqueue = [] ∨ ∃ u f, s'.pc u = .free .wakeup f := by
  have hpre : s.Outline l p := hp ▸ hs.outline t
  -- the threads that sleep were about to be woken by this thread
  have hmine : l ≠ [] → s.waitqueue = [] ∨ ∃ f, p = .free .wakeup f := fun hl => by
    refine (hs.awake hl).imp id ?_
    rintro ⟨u, f, hu⟩
    -- a thread in front of its wakeup has disabled interrupts
    have hatomic : (s.pc u).Atomic := by
      rw [hu]
      exact ⟨nofun, nofun⟩
    by_cases hut : u = t
    · exact ⟨f, hp ▸ hut ▸ hu⟩
    · exact absurd hatomic (hs.atomic.not_in hready hut)
  cases h with
  | append | wake => exact .inr ⟨t, _, Function.update_self ..⟩
  | woken hqueue => exact .inl hqueue
  | sleep => exact absurd hpre.2 hl
  | take =>
    refine .inl ((hmine hpre.2).resolve_right ?_)
    rintro ⟨f, hf⟩
    cases hf
  | _ =>
    refine .inl ((hmine hl).resolve_right ?_)
    rintro ⟨f, hf⟩
    cases hf

/-- A thread comes to have a frame that it has held, or that has been on the free list. -/
theorem Access.has_cases (h : s.Access t p s') (hs : s.Coherent l) (hf : (s'.pc t).Has f) :
    p.Has f ∨ s.holders f ≠ [] ∨ f ∈ l := by
  cases h with
  | @freeCall g hheld =>
    obtain rfl : g = f := by simpa [goto, Pc.Has] using hf
    exact .inr (.inl (List.ne_nil_of_mem hheld))
  | take hremove =>
    obtain rfl : _ = f := by simpa [goto, Pc.Has] using hf
    exact .inr (.inr ((hs.of_removeFirst hremove).1 ▸ List.mem_cons_self))
  | store | check | freeBegin | setState => exact .inl (by simpa [goto, Pc.Has] using hf)
  | _ => simp [goto, Pc.Has] at hf

/-- A frame that another thread has is not one that the thread comes to have. -/
theorem Access.not_has (h : s.Access t p s') (hs : s.Coherent l) (hp : s.pc t = p)
    (hready : Ready t s.atomic) (hut : u ≠ t) (hu : (s.pc u).Has f) : ¬(s'.pc t).Has f := by
  intro hf
  rcases h.has_cases hs hf with hmine | hheld | hlist
  · exact hut (hs.one u t f hu (hp ▸ hmine))
  · exact hheld (hs.handed u f hu)
  · -- a frame of the free list is available, and the other thread is in front of its stores
    have havail := ((hs.exact f).mp hlist).1
    have hpre := hs.outline u
    have hout := hs.atomic.not_in hready hut
    rcases hpu : s.pc u with _ | ⟨q, state, refcount⟩ | ⟨q, g⟩ <;> rw [hpu] at hpre hout hu
    · exact hu
    · cases q with
      | store | leave => exact hout trivial
      | _ => exact hu
    · obtain rfl := hu.1
      cases q with
      | check | begin => exact hpre.1 havail
      | _ => exact hout (by simp [Pc.Atomic])

theorem Access.one (h : s.Access t p s') (hs : s.Coherent l) (hp : s.pc t = p)
    (hready : Ready t s.atomic) {v : T} (hu : (s'.pc u).Has f) (hv : (s'.pc v).Has f) : u = v := by
  by_cases hut : u = t <;> by_cases hvt : v = t
  · rw [hut, hvt]
  · rw [hut] at hu
    rw [h.pc_of_ne hvt] at hv
    exact absurd hu (h.not_has hs hp hready hvt hv)
  · rw [hvt] at hv
    rw [h.pc_of_ne hut] at hu
    exact absurd hv (h.not_has hs hp hready hut hu)
  · rw [h.pc_of_ne hut] at hu
    rw [h.pc_of_ne hvt] at hv
    exact hs.one u v f hu hv

omit [DecidableEq F] in
/-- A frame has no holders when its one holder has freed it. -/
theorem Coherent.erase_eq (hs : s.Coherent l) (hheld : t ∈ s.holders f) :
    (s.holders f).erase t = [] := by
  have hlength := hs.holders f
  rw [← List.length_eq_zero_iff, List.length_erase_of_mem hheld]
  omega

theorem Access.handed (h : s.Access t p s') (hs : s.Coherent l) (hp : s.pc t = p)
    (hu : (s'.pc u).Has f) : s'.holders f = [] := by
  have hmine : p.Has f → s.holders f = [] := fun hf => hs.handed t f (hp ▸ hf)
  by_cases hut : u = t
  · -- it has had the frame, or takes it from its one holder, or off the free list
    rw [hut] at hu
    cases h with
    | @freeCall g hheld =>
      obtain rfl : g = f := by simpa [goto, Pc.Has] using hu
      exact (Function.update_self ..).trans (hs.erase_eq hheld)
    | @take _ _ g _ _ hremove =>
      obtain rfl : g = f := by simpa [goto, Pc.Has] using hu
      have hl := (hs.of_removeFirst hremove).1
      exact hs.held g ((hs.exact g).mp (hl ▸ List.mem_cons_self)).1
    | store | check | freeBegin | setState => exact hmine (by simpa [goto, Pc.Has] using hu)
    | _ => simp [goto, Pc.Has] at hu
  · rw [h.pc_of_ne hut] at hu
    exact h.holders_eq (fun hf => hut (hs.one u t f hu (hp ▸ hf))) (hs.handed u f hu)

theorem Access.holders_length (h : s.Access t p s') (hs : s.Coherent l) (hp : s.pc t = p) (f : F) :
    (s'.holders f).length ≤ 1 := by
  have hother : ∀ g (holders : List T), holders.length ≤ 1 →
      (Function.update s.holders g holders f).length ≤ 1 := fun g holders hlength => by
    by_cases hfg : f = g
    · rwa [hfg, Function.update_self]
    · rw [Function.update_of_ne hfg]
      exact hs.holders f
  cases h with
  | freeCall hheld => exact hother _ _ (by rw [hs.erase_eq hheld]; exact Nat.zero_le 1)
  | give hheld => exact hother _ _ (by rw [hs.erase_eq hheld]; exact Nat.le_refl 1)
  | @leave state refcount g =>
    have hnone : s.holders g = [] := by
      refine hs.handed t g ?_
      rw [hp]
      exact rfl
    exact hother _ _ (by rw [hnone]; exact Nat.le_refl 1)
  | _ => exact hs.holders f

theorem Access.held (h : s.Access t p s') (hs : s.Coherent l) (hp : s.pc t = p)
    (havail : (s'.frame f).state = .avail) : s'.holders f = [] := by
  have hpre : s.Outline l p := hp ▸ hs.outline t
  -- the stores to the states of frames are those of a thread that has the frame
  by_cases hhas : p.Has f
  · have hnone : s.holders f = [] := hs.handed t f (hp ▸ hhas)
    cases h with
    | @leave _ _ g =>
      obtain rfl : g = f := hhas
      exact absurd havail hpre.2
    | freeCall | give => exact hhas.elim
    | _ => exact hnone
  · by_cases hnone : s.holders f = []
    · exact h.holders_eq hhas hnone
    · -- nobody but `mem_free_frame` makes a frame available
      exact absurd havail (h.state_ne hhas fun hav => hnone (hs.held f hav))

/-- An access keeps the invariant. -/
theorem Access.coherent (h : s.Access t p s') (hs : s.Coherent l) (hp : s.pc t = p)
    (hready : Ready t s.atomic) (ht : t ∉ s.waitqueue) : Coherent s' (listAfter l p) where
  list := h.list hs hp
  exact := h.exact hs hp hready
  atomic := by
    obtain ⟨q, hpc, hatomic⟩ := h.pc_eq
    rw [hpc, hatomic]
    exact hs.atomic.update hready q
  outline u := by
    by_cases hut : u = t
    · rw [hut]
      exact h.outline_self hs hp
    · rw [h.pc_of_ne hut]
      exact h.outline_other hs hp hready hut
  asleep u hu := h.asleep hs ht hu
  awake := h.keeps_awake hs hp hready
  one _ _ _ hu hv := h.one hs hp hready hu hv
  handed _ _ hu := h.handed hs hp hu
  holders := h.holders_length hs hp
  held _ havail := h.held hs hp havail

/-! ### The pool -/

/-- What `mem_alloc_frame` and `mem_free_frame` do at once, and a store of a holder. -/
inductive PoolStep (pool : FramePool F) : FramePool F → Prop
  | allocFrame {state : FrameState} {refcount : ℤ} {f : F} {pool' : FramePool F}
      (h : pool.memAllocFrame state refcount = some (f, pool')) : PoolStep pool pool'
  | freeFrame {f : F} (hf : f ∉ pool.freelist) (h : (pool.frame f).refcount = 0) :
      PoolStep pool (pool.freed f)
  | use {f : F} {frame : Frame} (hf : f ∉ pool.freelist) (h : frame.state ≠ .avail) :
      PoolStep pool (pool.setFrame f frame)

/-- The free list where a thread is at `p`, with the frame that it has taken and not stored to yet,
or is about to append. -/
def freelistAt (l : List F) : Pc F → List F
  | .alloc (.store f) _ _ => f :: l
  | .free .append f => l ++ [f]
  | _ => l

omit [DecidableEq F] in
theorem freelistAt_of_not_atomic (h : ¬p.Atomic) : freelistAt l p = l := by
  unfold freelistAt
  split
  · exact absurd trivial h
  · exact absurd ⟨by decide, by decide⟩ h
  · rfl

/-- The frames as the functions of `FramePool` have them. -/
def pool (s : State F T) (l : List F) : FramePool F :=
  ⟨s.frame, match s.atomic with
    | some t => freelistAt l (s.pc t)
    | none => l⟩

omit [DecidableEq F] [DecidableEq T] in
/-- It depends on the thread that comes only. -/
theorem pool_eq (hs : Exclusive Pc.Atomic s.pc s.atomic) (hready : Ready t s.atomic) :
    s.pool l = ⟨s.frame, freelistAt l (s.pc t)⟩ := by
  unfold pool
  rcases hready with hnone | hsome
  · have hout : ¬(s.pc t).Atomic := by
      rw [hs t, hnone]
      simp
    rw [hnone, freelistAt_of_not_atomic hout]
  · rw [hsome]

/-- An access is what one of the functions of `FramePool` does, or nothing. -/
theorem Access.pool (h : s.Access t p s') (hs : s.Coherent l) (hp : s.pc t = p) :
    s'.frame = s.frame ∧ freelistAt (listAfter l p) (s'.pc t) = freelistAt l p ∨
      PoolStep ⟨s.frame, freelistAt l p⟩ ⟨s'.frame, freelistAt (listAfter l p) (s'.pc t)⟩ := by
  have hpre : s.Outline l p := hp ▸ hs.outline t
  have hpc : ∀ q, (s.goto t q).pc t = q := fun q => Function.update_self ..
  cases h with
  | @use f frame link hheld hstate =>
    right
    have hpc' : freelistAt l ((s.goto t .idle).pc t) = l := by rw [hpc]; rfl
    show PoolStep _ ⟨Function.update s.frame f frame, freelistAt l ((s.goto t .idle).pc t)⟩
    rw [hpc']
    exact .use (hs.not_mem_of_held hheld) hstate
  | take hremove =>
    left
    refine ⟨rfl, ?_⟩
    show freelistAt l.tail ((s.goto t _).pc t) = l
    rw [hpc]
    exact (hs.of_removeFirst hremove).1.symm
  | @store state refcount f =>
    right
    show PoolStep ⟨s.frame, f :: l⟩ ⟨Function.update s.frame f _, freelistAt l ((s.goto t _).pc t)⟩
    rw [hpc]
    exact .allocFrame rfl
  | @setState f =>
    right
    show PoolStep ⟨s.frame, l⟩ ⟨Function.update s.frame f _, freelistAt l ((s.goto t _).pc t)⟩
    rw [hpc]
    exact .freeFrame (fun hf => hpre.1 ((hs.exact f).mp hf).1) hpre.2
  | _ =>
    left
    refine ⟨rfl, ?_⟩
    show freelistAt _ ((s.goto t _).pc t) = _
    rw [hpc]
    rfl

end Access

/-! ### Runs -/

section Runs

open TransitionSystem

variable {e : Event F T}

theorem Coherent.step (hs : s.Coherent l) (h : Step s e s') :
    s'.Coherent (listAfter l (s.pc e.thread)) := by
  obtain ⟨haccess, hready, hcome⟩ := h.access
  refine haccess.coherent hs rfl hready ?_
  rcases hcome with hidle | hawake
  · intro hmem
    obtain ⟨state, refcount, hasleep⟩ := hs.asleep _ hmem
    rw [hidle] at hasleep
    cases hasleep
  · exact hawake

/-- A step is one of the steps of the pool, or none. -/
theorem Coherent.pool_step (hs : s.Coherent l) (h : Step s e s') :
    Relation.ReflTransGen PoolStep (s.pool l) (s'.pool (listAfter l (s.pc e.thread))) := by
  obtain ⟨haccess, hready, -⟩ := h.access
  obtain ⟨q, -, hatomic⟩ := haccess.pc_eq
  have hready' : Ready e.thread s'.atomic := hatomic ▸ ready_ownerAt e.thread q
  rw [pool_eq hs.atomic hready, pool_eq (hs.step h).atomic hready']
  rcases haccess.pool hs rfl with ⟨hframe, hlist⟩ | hpool
  · rw [hframe, hlist]
  · exact .single hpool

/-- No assertion fails, and no null pointer is followed. -/
theorem Coherent.resume_ok (hs : s.Coherent l) (t : T) : ∃ s', s.resume t = .ok s' := by
  have hatomic := (hs.atomic t).mp
  have hpre := hs.outline t
  unfold resume
  rcases hp : s.pc t with _ | ⟨q, state, refcount⟩ | ⟨q, f⟩ <;> rw [hp] at hatomic hpre
  · exact ⟨_, rfl⟩
  · cases q with
    | test =>
      dsimp only [allocFrame]
      split <;> exact ⟨_, rfl⟩
    | sleep =>
      dsimp only [allocFrame]
      rw [require, if_pos (hatomic trivial)]
      exact ⟨_, rfl⟩
    | take =>
      obtain ⟨f, rest, hl⟩ := List.exists_cons_of_ne_nil hpre.2
      obtain ⟨freelist, link, hremove, -⟩ := removeFirst_isList (hl ▸ hs.list)
      dsimp only [allocFrame]
      rw [hremove]
      exact ⟨_, rfl⟩
    | _ => exact ⟨_, rfl⟩
  · cases q with
    | check =>
      dsimp only [freeFrame]
      rw [require, if_pos hpre.2]
      exact ⟨_, rfl⟩
    | wakeup =>
      dsimp only [freeFrame]
      split
      · exact ⟨_, rfl⟩
      · rw [require, if_pos (hatomic ⟨by decide, by decide⟩)]
        exact ⟨_, rfl⟩
    | _ => exact ⟨_, rfl⟩

/-- The frames are where they should be. -/
structure Sound (s : State F T) : Prop where
  /-- The free list has each available frame once, except for a frame that a thread is about to put
  there, or has just taken. -/
  list : ∃ l, IsList s.freelist s.link l ∧
    ∀ f, f ∈ l ↔ (s.frame f).state = .avail ∧ ∀ t, ¬(s.pc t).InTransit f
  /-- While interrupts are enabled, there is no such frame. -/
  exact : s.atomic = none →
    ∃ l, IsList s.freelist s.link l ∧ ∀ f, f ∈ l ↔ (s.frame f).state = .avail
  /-- No frame has two holders. -/
  one : ∀ f, (s.holders f).length ≤ 1
  /-- An available frame has none. -/
  free : ∀ f, (s.frame f).state = .avail → s.holders f = []
  /-- While there is a frame, no thread sleeps, except in front of the wakeup of the thread that has
  brought it. -/
  awake : s.freelist.first ≠ none → s.waitqueue = [] ∨ ∃ t f, s.pc t = .free .wakeup f
  /-- While interrupts are enabled, no thread is there. -/
  quiet : s.atomic = none → s.freelist.first ≠ none → s.waitqueue = []
  /-- No assertion fails. -/
  safe : ∀ t, ∃ s', s.resume t = .ok s'

theorem Coherent.sound (hs : s.Coherent l) : s.Sound := by
  have hout : s.atomic = none → ∀ t, ¬(s.pc t).Atomic := fun hnone t => by
    rw [hs.atomic t, hnone]
    nofun
  have hawake : s.freelist.first ≠ none → s.waitqueue = [] ∨ ∃ t f, s.pc t = .free .wakeup f := by
    intro hfirst
    refine hs.awake ?_
    rwa [hs.first_eq, Ne, List.head?_eq_none_iff] at hfirst
  refine ⟨⟨l, hs.list, hs.exact⟩, fun hnone => ⟨l, hs.list, fun f => ?_⟩, hs.holders, hs.held, hawake,
    fun hnone hfirst => ?_, hs.resume_ok⟩
  · rw [hs.exact]
    refine and_iff_left fun t htransit => hout hnone t ?_
    exact Pc.atomic_of_inTransit htransit
  · refine (hawake hfirst).resolve_right ?_
    rintro ⟨t, f, hpc⟩
    exact hout hnone t (hpc ▸ ⟨nofun, nofun⟩)

/-- However the threads allocate, use and free frames, the frames are where they should be. -/
theorem sound_of_run {s₀ : State F T} {tr : List (State F T × Event F T)} (h₀ : s₀.Initial)
    (h : Run Step s₀ tr s) : s.Sound := by
  have hs : ∃ l, s.Coherent l := by
    refine h.invariant (I := fun s => ∃ l, s.Coherent l) h₀.coherent ?_
    rintro s e s' ⟨l, hs⟩ hstep
    exact ⟨_, hs.step hstep⟩
  obtain ⟨l, hs⟩ := hs
  exact hs.sound

/-- The functions of `FramePool` say what becomes of the frames and of the free list: whatever the
threads do, it is what these functions do one after the other. -/
theorem pool_of_run {s₀ : State F T} {tr : List (State F T × Event F T)} (h₀ : s₀.Initial)
    (h : Run Step s₀ tr s) :
    ∃ l₀ l, IsList s₀.freelist s₀.link l₀ ∧ IsList s.freelist s.link l ∧
      Relation.ReflTransGen PoolStep ⟨s₀.frame, l₀⟩ (s.pool l) := by
  obtain ⟨l₀, hs₀⟩ := h₀.coherent
  have hpool : s₀.pool l₀ = ⟨s₀.frame, l₀⟩ := by
    unfold pool
    rw [h₀.atomic]
  obtain ⟨p, ⟨l, hs, rfl⟩, hreach⟩ := h.simulation
    (R := fun s p => ∃ l, s.Coherent l ∧ p = s.pool l) ⟨l₀, hs₀, rfl⟩ (by
      rintro s e s' p ⟨l, hs, rfl⟩ hstep
      exact ⟨_, ⟨_, hs.step hstep, rfl⟩, hs.pool_step hstep⟩)
  exact ⟨l₀, l, hs₀.list, hs.list, hpool ▸ hreach⟩

/-- Two frames, of which one is free and the other one is held by a thread. -/
def oneFree : State Bool Bool where
  frame f := if f then { state := .vmPgcache } else {}
  link f := if f then ⟨none, some true⟩ else ⟨none, none⟩
  freelist := ⟨some false, some false⟩
  waitqueue := []
  pc _ := .idle
  atomic := none
  holders f := if f then [true] else []

/-- A thread takes the free frame, sleeps for another one and gets it when its holder has freed
it. -/
def takeAndFree : List (Event Bool Bool) :=
  [.allocFrame false .kern 1, .resume false, .resume false, .resume false, .resume false,
    .resume false, .allocFrame false .kern 1, .resume false, .resume false, .resume false,
    .freeFrame true true, .resume true, .resume true, .resume true, .resume true, .resume true,
    .resume true, .resume true, .resume false, .resume false, .resume false, .resume false,
    .resume false]

theorem oneFree_initial : oneFree.Initial where
  exact := by
    refine ⟨[false], ⟨.cons .nil, rfl, by decide⟩, ?_⟩
    decide
  pc _ := .inl rfl
  waitqueue t ht := by cases ht
  awake _ := rfl
  atomic := rfl
  holders := by decide
  held := by decide

theorem sound_takeAndFree :
    (after Enabled exec oneFree takeAndFree).holders true = [false] ∧
      (after Enabled exec oneFree takeAndFree).Sound := by
  have hruns : (runs Enabled exec oneFree takeAndFree).isSome := by
    decide
  obtain ⟨tr, hr⟩ := run_after hruns
  exact ⟨by decide, sound_of_run oneFree_initial hr⟩

end Runs

end State

end GeekOS.Memory.Alloc
