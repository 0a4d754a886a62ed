import GeekOS.Library.Execution
import GeekOS.Library.LinkedList
import GeekOS.Library.Result

/-!
# The work queue in memory

`workqueue.c` on the records of its items and the two pointers to its list. Any threads call
`workqueue_schedule_work`, and the workqueue thread goes through its loop; a callback runs on the
workqueue thread and may call `workqueue_schedule_work`, too. An event is what happens between two
places where another thread can come in: an atomic section, or the statements between two of them.

What does not depend on the queue is left to the event: what `malloc` returns; that a thread waits
for a key, in the same queue as the workqueue thread, or that a key wakes all of them; and that
another part of the kernel, or a callback, calls `mem_free`.

The last fields of `State` are history. No function of the kernel reads them. `Represents` connects
`State` with the work queue of `Machine`.
-/

namespace GeekOS.Workqueue

open LinkedList TransitionSystem

/-- `struct workqueue_item *`. -/
abbrev ItemId := ℕ

/-- `struct workqueue_item`. The callback and its argument are addresses. -/
structure WorkqueueItem where
  callback : ℕ
  data : ℕ
  next : Option ItemId
  deriving DecidableEq, Repr

/-- An item and the work that it stands for. -/
structure Entry where
  item : ItemId
  callback : ℕ
  data : ℕ
  deriving DecidableEq, Repr

/-- Where a thread is in `workqueue_schedule_work`. -/
inductive Scheduling
  /-- Not in the function. -/
  | outside
  /-- In `mem_alloc`. -/
  | alloc (callback data : ℕ)
  /-- In front of the stores into the new item. -/
  | fill (item : ItemId) (callback data : ℕ)
  /-- In front of the atomic section. -/
  | insert (item : ItemId) (callback data : ℕ)
  deriving DecidableEq, Repr

/-- It is in `mem_alloc`. -/
def Scheduling.isAlloc : Scheduling → Bool
  | .alloc .. => true
  | _ => false

/-- It is in front of the stores into the new item. -/
def Scheduling.isFill : Scheduling → Bool
  | .fill .. => true
  | _ => false

/-- It is in front of the atomic section. -/
def Scheduling.isInsert : Scheduling → Bool
  | .insert .. => true
  | _ => false

/-- Where the workqueue thread is in its loop. -/
inductive WorkerPc
  /-- In front of the test, with interrupts disabled. -/
  | loop
  /-- In front of the call of the callback. -/
  | invoke (item : ItemId)
  /-- In the callback. -/
  | running (e : Entry)
  /-- In front of `mem_free`. -/
  | free (e : Entry)
  deriving DecidableEq, Repr

/-- The assertions on the way. -/
inductive Assertion
  /-- `s_workqueue_tail != 0`. -/
  | tailNotNull
  /-- `list->head != 0`, of `thread_queue_remove_first`. -/
  | waitqueueNotEmpty
  /-- The range check of `mem_free`. -/
  | inHeap
  deriving DecidableEq, Repr

/-- How a step can fail. -/
inductive Fault
  | assertion (a : Assertion)
  /-- The item accessed is not allocated. -/
  | invalidAccess (item : ItemId)
  deriving DecidableEq, Repr

/-- The memory of the items, the global variables and the threads. -/
structure State (T : Type) where
  item : ItemId → Option WorkqueueItem
  gHeapstart : ℕ
  gHeapend : ℕ
  sWorkqueueHead : Option ItemId
  sWorkqueueTail : Option ItemId
  sWaitqueue : List T
  sHeapWaitqueue : List T
  scheduling : T → Scheduling
  worker : WorkerPc
  /-- The items in the order in which they have come into the list. -/
  inserted : List Entry
  /-- The callbacks in the order of their calls, each with the argument of the call. -/
  invoked : List Entry
  /-- The callbacks that have returned. -/
  returned : List Entry
  /-- The items given to `mem_free`. -/
  freed : List Entry

/-- What a thread does next, or another part of the kernel. -/
inductive Event (T : Type)
  /-- A call of `workqueue_schedule_work`. -/
  | call (t : T) (callback data : ℕ)
  /-- `malloc` returns this in `mem_alloc`, and the thread goes to sleep if it is null. -/
  | malloc (t : T) (result : Option ItemId)
  /-- The stores into the new item. -/
  | fill (t : T)
  /-- The atomic section of `workqueue_schedule_work`. -/
  | insert (t : T)
  /-- The workqueue thread goes on with its loop. -/
  | worker
  /-- The callback returns to the workqueue thread. -/
  | callbackReturns
  /-- A thread waits for a key. -/
  | wait (t : T)
  /-- A key wakes the threads that wait. -/
  | wakeAll
  /-- A `mem_free` of anything but an item wakes the threads that sleep in `mem_alloc`. -/
  | memFree
  deriving DecidableEq, Repr

namespace State

variable {T : Type} [DecidableEq T] (workqueueThread : T) (s : State T)

/-- The thread is in no wait queue. -/
def Awake (t : T) : Prop := t ∉ s.sWaitqueue ∧ t ∉ s.sHeapWaitqueue

/-- The workqueue thread is in a callback. -/
def inCallback : Bool :=
  match s.worker with
  | .running _ => true
  | _ => false

/-- The thread is in code that can call `workqueue_schedule_work` or wait for a key. -/
def CanCall (t : T) : Prop :=
  s.Awake t ∧ s.scheduling t = .outside ∧ (t = workqueueThread → s.inCallback = true)

/-- The event can come. `malloc` returns memory that is not in use. -/
def Enabled : Event T → Prop
  | .call t _ _ | .wait t => s.CanCall workqueueThread t
  | .malloc t result =>
      s.Awake t ∧ (s.scheduling t).isAlloc = true ∧ ∀ i ∈ result, s.item i = none
  | .fill t => s.Awake t ∧ (s.scheduling t).isFill = true
  | .insert t => s.Awake t ∧ (s.scheduling t).isInsert = true
  | .worker => s.Awake workqueueThread ∧ s.inCallback = false
  | .callbackReturns =>
      s.Awake workqueueThread ∧ s.scheduling workqueueThread = .outside ∧ s.inCallback = true
  | .wakeAll | .memFree => True

instance (t : T) : Decidable (s.Awake t) := by
  unfold Awake
  infer_instance

instance (t : T) : Decidable (s.CanCall workqueueThread t) := by
  unfold CanCall
  infer_instance

instance (e : Event T) : Decidable (s.Enabled workqueueThread e) := by
  cases e <;> unfold Enabled <;> infer_instance

/-- Access an item. -/
def deref (item : ItemId) : Except Fault WorkqueueItem :=
  match s.item item with
  | some record => .ok record
  | none => .error (.invalidAccess item)

/-- `KASSERT`. -/
abbrev kassert (p : Prop) [Decidable p] (a : Assertion) : Except Fault Unit :=
  Result.require p (.assertion a)

/-- `malloc` in `mem_alloc`, and the buffer filled with zeroes. -/
def memAlloc (t : T) (callback data : ℕ) : Option ItemId → State T
  | some item => { s with
      item := Function.update s.item item (some ⟨0, 0, none⟩)
      scheduling := Function.update s.scheduling t (.fill item callback data) }
  | none => { s with sHeapWaitqueue := s.sHeapWaitqueue ++ [t] }

/-- The item to the tail of the list. -/
def link (item : ItemId) : Except Fault (State T) :=
  if s.sWorkqueueHead = none then
    .ok { s with sWorkqueueHead := some item, sWorkqueueTail := some item }
  else
    match s.sWorkqueueTail with
    | none => .error (.assertion .tailNotNull)
    | some tail => do
        let record ← s.deref tail
        return { s with
          item := Function.update s.item tail (some { record with next := some item })
          sWorkqueueTail := some item }

/-- `thread_wakeup_one`. -/
def threadWakeupOne : Except Fault (State T) := do
  kassert (s.sWaitqueue ≠ []) .waitqueueNotEmpty
  return { s with sWaitqueue := s.sWaitqueue.tail }

/-- The workqueue thread waits for an item, or takes the first one out of the list. -/
def nextItem : Except Fault (State T) :=
  match s.sWorkqueueHead with
  | none => .ok { s with sWaitqueue := s.sWaitqueue ++ [workqueueThread] }
  | some item => do
      let record ← s.deref item
      return { s with
        sWorkqueueHead := record.next
        sWorkqueueTail := if record.next = none then none else s.sWorkqueueTail
        worker := .invoke item }

/-- `item->callback(item->data)`, up to the start of the callback. -/
def invoke (item : ItemId) : Except Fault (State T) := do
  let record ← s.deref item
  let e : Entry := ⟨item, record.callback, record.data⟩
  return { s with worker := .running e, invoked := s.invoked ++ [e] }

/-- `mem_free` of the item, and back to the test of the loop. -/
def memFree (e : Entry) : Except Fault (State T) := do
  kassert (s.gHeapstart ≤ e.item ∧ e.item < s.gHeapend) .inHeap
  let _ ← s.deref e.item
  return { s with
    item := Function.update s.item e.item none
    sHeapWaitqueue := []
    worker := .loop
    freed := s.freed ++ [e] }

/-- What an event does. -/
def exec : Event T → Except Fault (State T)
  | .call t callback data =>
      .ok { s with scheduling := Function.update s.scheduling t (.alloc callback data) }
  | .malloc t result =>
      match s.scheduling t with
      | .alloc callback data => .ok (s.memAlloc t callback data result)
      | _ => .ok s
  | .fill t =>
      match s.scheduling t with
      | .fill item callback data => do
          let _ ← s.deref item
          return { s with
            item := Function.update s.item item (some ⟨callback, data, none⟩)
            scheduling := Function.update s.scheduling t (.insert item callback data) }
      | _ => .ok s
  | .insert t =>
      match s.scheduling t with
      | .insert item callback data => do
          let s ← s.link item
          threadWakeupOne { s with
            scheduling := Function.update s.scheduling t .outside
            inserted := s.inserted ++ [⟨item, callback, data⟩] }
      | _ => .ok s
  | .worker =>
      match s.worker with
      | .loop => s.nextItem workqueueThread
      | .invoke item => s.invoke item
      | .running _ => .ok s
      | .free e => s.memFree e
  | .callbackReturns =>
      match s.worker with
      | .running e => .ok { s with worker := .free e, returned := s.returned ++ [e] }
      | _ => .ok s
  | .wait t => .ok { s with sWaitqueue := s.sWaitqueue ++ [t] }
  | .wakeAll => .ok { s with sWaitqueue := [] }
  | .memFree => .ok { s with sHeapWaitqueue := [] }

/-- A step of the kernel that does not halt it. -/
abbrev Step : State T → Event T → State T → Prop :=
  stepOf (fun s e => s.Enabled workqueueThread e) fun s e => s.exec workqueueThread e

/-- Before the first call: the list is empty and the workqueue thread in front of its loop. -/
structure Initial (s : State T) : Prop where
  item : ∀ i, s.item i = none
  head : s.sWorkqueueHead = none
  tail : s.sWorkqueueTail = none
  scheduling : ∀ t, s.scheduling t = .outside
  worker : s.worker = .loop
  inserted : s.inserted = []
  invoked : s.invoked = []
  returned : s.returned = []
  freed : s.freed = []

end State

end GeekOS.Workqueue
