import Mathlib.Data.Nat.Notation
import Mathlib.Data.Int.Notation
import Mathlib.Logic.Function.Basic
import Mathlib.Tactic.Common
import GeekOS.Library.Execution
import GeekOS.Library.Result

/-!
# Requests for block I/O

`blockdev.c`: a thread creates a request, posts it to the driver of its device and waits until the
driver has called `blockdev_notify_complete`, which it may do before the call of its
`post_request` returns or at any time later, from another thread or from an interrupt handler.

A `struct blockdev_req *` is a `RequestId`: the identity of one allocation, never used for a second
one. An access to a request that is not allocated fails. A thread that waits is asleep while it is
in the wait queue of the request.

The last fields of `State` are history. No function of the kernel reads them.
-/

namespace GeekOS.Blockdev

open Result

/-- `struct blockdev_req *`. -/
abbrev RequestId := ℕ

/-- `struct blockdev *`. -/
abbrev DeviceId := ℕ

/-- `blockdev_req_type_t`. -/
inductive ReqType
  | read | write
  deriving DecidableEq, Repr

/-- `blockdev_req_state_t`. -/
inductive ReqState
  | pending | finished
  deriving DecidableEq, Repr

/-- The number of an enumerator. -/
def ReqState.toInt : ReqState → ℤ
  | pending => 0
  | finished => 1

/-- `struct blockdev_req`, its wait queue and the scratch pointer of the driver aside. -/
structure Request where
  lba : ℕ
  numBlocks : ℕ
  buf : ℕ
  type : ReqType
  state : ReqState
  rc : ℤ
  dev : Option DeviceId
  deriving DecidableEq, Repr

/-- What halts the kernel or reads memory that is not its own. -/
inductive Fault
  /-- `state == BLOCKDEV_REQ_FINISHED`. -/
  | finished
  /-- An access to a request that is not allocated. -/
  | invalidAccess (r : RequestId)
  deriving DecidableEq, Repr

/-- The callers of `blockdev_wait_for_completion`. -/
inductive WaitCaller
  | issueSync | direct
  deriving DecidableEq, Repr

/-- Where a thread is. -/
inductive Pc
  /-- Outside of the functions of `blockdev.c`. -/
  | idle
  /-- In front of `blockdev_post_request`. -/
  | postRequest (dev : DeviceId) (r : RequestId)
  /-- At the test of the loop in `blockdev_wait_for_completion`. -/
  | waitForCompletion (r : RequestId) (caller : WaitCaller)
  /-- In `blockdev_issue_sync`, behind `blockdev_post_and_wait`. -/
  | posted (r : RequestId) (state : ℤ)
  /-- At its `mem_free(req)`. -/
  | freeReq (r : RequestId)
  /-- At its `return req->rc`. -/
  | returnRc (r : RequestId)
  deriving DecidableEq, Repr

/-- Where the caller of `blockdev_wait_for_completion` goes on with the code it returns. -/
def WaitCaller.goesOn (r : RequestId) (rc : ℤ) : WaitCaller → Pc
  | issueSync => .posted r rc
  | direct => .idle

/-- The requests, and the threads `T`. -/
structure State (T : Type) where
  req : RequestId → Option Request
  nextReq : RequestId
  waitqueue : RequestId → List T
  pc : T → Pc
  /-- The requests that a driver has been given and has not notified. -/
  outstanding : List RequestId
  /-- History: the requests that have been freed. -/
  freed : List RequestId
  /-- History: what drivers have passed to `blockdev_notify_complete`. -/
  notified : RequestId → Option ℤ
  /-- History: what calls of `blockdev_wait_for_completion` have returned. -/
  waited : List (T × RequestId × ℤ)
  /-- History: what calls of `blockdev_read_sync` and `blockdev_write_sync` have returned. -/
  returned : List (T × RequestId × ℤ)

/-- What can happen next. -/
inductive Event (T : Type)
  /-- A thread calls `blockdev_read_sync` or `blockdev_write_sync`. -/
  | issueSync (t : T) (dev : DeviceId) (lba numBlocks buf : ℕ) (type : ReqType)
  /-- It calls `blockdev_wait_for_completion` on a request that is allocated. -/
  | waitForCompletion (t : T) (r : RequestId)
  /-- It goes through its next section. -/
  | resume (t : T)
  /-- A driver calls `blockdev_notify_complete`. -/
  | notifyComplete (r : RequestId) (rc : ℤ)
  deriving DecidableEq, Repr

variable {T : Type} [DecidableEq T]

namespace State

variable (s : State T)

/-- Move a thread. -/
def goto (t : T) (p : Pc) : State T := { s with pc := Function.update s.pc t p }

/-- The request behind a pointer. -/
def deref (r : RequestId) : Except Fault Request :=
  match s.req r with
  | some req => .ok req
  | none => .error (.invalidAccess r)

/-- Store the fields of a request. -/
def setReq (r : RequestId) (req : Request) : State T :=
  { s with req := Function.update s.req r (some req) }

/-- `blockdev_create_request`, whose `mem_alloc` gives a new request. -/
def blockdevCreateRequest (lba numBlocks buf : ℕ) (type : ReqType) : RequestId × State T :=
  let req : Request :=
    { lba, numBlocks, buf, type, state := .pending, rc := 0, dev := none }
  (s.nextReq, { s.setReq s.nextReq req with nextReq := s.nextReq + 1 })

/-- `blockdev_post_request`. -/
def blockdevPostRequest (dev : DeviceId) (r : RequestId) : Except Fault (State T) := do
  let req ← s.deref r
  let s := s.setReq r { req with dev := some dev }
  pure { s with outstanding := r :: s.outstanding }

/-- One round of the loop of `blockdev_wait_for_completion`: sleep, or return `req->rc`. -/
def blockdevWaitForCompletion (t : T) (r : RequestId) (caller : WaitCaller) :
    Except Fault (State T) := do
  let req ← s.deref r
  if req.state = .pending then
    pure { s with waitqueue := Function.update s.waitqueue r (s.waitqueue r ++ [t]) }
  else
    let s := { s with waited := (t, r, req.rc) :: s.waited }
    pure (s.goto t (caller.goesOn r req.rc))

/-- `blockdev_notify_complete`. -/
def blockdevNotifyComplete (r : RequestId) (rc : ℤ) : Except Fault (State T) := do
  let req ← s.deref r
  let s := s.setReq r { req with state := .finished, rc }
  pure { s with
    waitqueue := Function.update s.waitqueue r []
    outstanding := s.outstanding.erase r
    notified := Function.update s.notified r (some rc) }

/-- A thread goes through its next section. -/
def resume (t : T) : Except Fault (State T) :=
  match s.pc t with
  | .idle => pure s
  | .postRequest dev r => do
      let s ← s.blockdevPostRequest dev r
      pure (s.goto t (.waitForCompletion r .issueSync))
  | .waitForCompletion r caller => s.blockdevWaitForCompletion t r caller
  | .posted r state => do
      require (state = ReqState.finished.toInt) .finished
      pure (s.goto t (.freeReq r))
  | .freeReq r => do
      let _ ← s.deref r
      pure { s.goto t (.returnRc r) with
        req := Function.update s.req r none
        freed := r :: s.freed }
  | .returnRc r => do
      let req ← s.deref r
      pure { s.goto t .idle with returned := (t, r, req.rc) :: s.returned }

/-- Carry out an event. -/
def exec : Event T → Except Fault (State T)
  | .issueSync t dev lba numBlocks buf type =>
      let (r, s) := s.blockdevCreateRequest lba numBlocks buf type
      pure (s.goto t (.postRequest dev r))
  | .waitForCompletion t r => pure (s.goto t (.waitForCompletion r .direct))
  | .resume t => s.resume t
  | .notifyComplete r rc => s.blockdevNotifyComplete r rc

/-- The thread is asleep. -/
def Asleep (t : T) : Prop :=
  match s.pc t with
  | .waitForCompletion r _ => t ∈ s.waitqueue r
  | _ => False

instance (t : T) : Decidable (s.Asleep t) := by
  unfold Asleep
  split <;> infer_instance

/-- The event can come now. A driver notifies a request that it has been given once. -/
def Enabled : Event T → Prop
  | .issueSync t _ _ _ _ _ => s.pc t = .idle
  | .waitForCompletion t r => s.pc t = .idle ∧ s.req r ≠ none
  | .resume t => s.pc t ≠ .idle ∧ ¬s.Asleep t
  | .notifyComplete r _ => r ∈ s.outstanding

instance (e : Event T) : Decidable (s.Enabled e) := by
  cases e <;> unfold Enabled <;> infer_instance

/-- One step. -/
def Step : State T → Event T → State T → Prop := TransitionSystem.stepOf Enabled exec

/-- No request has been made. -/
def initial : State T where
  req _ := none
  nextReq := 0
  waitqueue _ := []
  pc _ := .idle
  outstanding := []
  freed := []
  notified _ := none
  waited := []
  returned := []

/-! ## What a step does -/

/-- The steps, with the states they lead to. -/
inductive Transition : Event T → State T → Prop
  | issueSync {t : T} {dev : DeviceId} {lba numBlocks buf : ℕ} {type : ReqType}
      (hpc : s.pc t = .idle) :
      Transition (.issueSync t dev lba numBlocks buf type)
        ((s.blockdevCreateRequest lba numBlocks buf type).2.goto t (.postRequest dev s.nextReq))
  | direct {t : T} {r : RequestId} (hpc : s.pc t = .idle) (hr : s.req r ≠ none) :
      Transition (.waitForCompletion t r) (s.goto t (.waitForCompletion r .direct))
  | post {t : T} {dev : DeviceId} {r : RequestId} {req : Request}
      (hpc : s.pc t = .postRequest dev r) (hr : s.req r = some req) :
      Transition (.resume t)
        { (s.setReq r { req with dev := some dev }).goto t (.waitForCompletion r .issueSync) with
          outstanding := r :: s.outstanding }
  | sleep {t : T} {r : RequestId} {caller : WaitCaller} {req : Request}
      (hpc : s.pc t = .waitForCompletion r caller) (hawake : t ∉ s.waitqueue r)
      (hr : s.req r = some req) (hstate : req.state = .pending) :
      Transition (.resume t)
        { s with waitqueue := Function.update s.waitqueue r (s.waitqueue r ++ [t]) }
  | waited {t : T} {r : RequestId} {caller : WaitCaller} {req : Request}
      (hpc : s.pc t = .waitForCompletion r caller) (hr : s.req r = some req)
      (hstate : req.state = .finished) :
      Transition (.resume t)
        { s.goto t (caller.goesOn r req.rc) with waited := (t, r, req.rc) :: s.waited }
  | check {t : T} {r : RequestId} (hpc : s.pc t = .posted r ReqState.finished.toInt) :
      Transition (.resume t) (s.goto t (.freeReq r))
  | free {t : T} {r : RequestId} (hpc : s.pc t = .freeReq r) (hr : s.req r ≠ none) :
      Transition (.resume t)
        { s.goto t (.returnRc r) with
          req := Function.update s.req r none
          freed := r :: s.freed }
  | return {t : T} {r : RequestId} {req : Request} (hpc : s.pc t = .returnRc r)
      (hr : s.req r = some req) :
      Transition (.resume t)
        { s.goto t .idle with returned := (t, r, req.rc) :: s.returned }
  | notify {r : RequestId} {rc : ℤ} {req : Request} (hout : r ∈ s.outstanding)
      (hr : s.req r = some req) :
      Transition (.notifyComplete r rc)
        { s.setReq r { req with state := .finished, rc } with
          waitqueue := Function.update s.waitqueue r []
          outstanding := s.outstanding.erase r
          notified := Function.update s.notified r (some rc) }

variable {s} {s' : State T} {e : Event T} {r : RequestId} {req : Request}

omit [DecidableEq T] in
theorem deref_eq_ok : s.deref r = .ok req ↔ s.req r = some req := by
  unfold deref
  split <;> simp [*]

/-- A step is one of the transitions. -/
theorem Step.transition (h : Step s e s') : s.Transition e s' := by
  obtain ⟨hen, hexec⟩ := h
  cases e with
  | issueSync t dev lba numBlocks buf type =>
    obtain rfl := Except.ok.inj hexec
    exact .issueSync hen
  | waitForCompletion t r =>
    obtain rfl := Except.ok.inj hexec
    exact .direct hen.1 hen.2
  | notifyComplete r rc =>
    obtain ⟨req, hr, heq⟩ := bind_eq_ok.mp hexec
    obtain rfl := Except.ok.inj heq
    exact .notify hen (deref_eq_ok.mp hr)
  | resume t =>
    simp only [exec, resume] at hexec
    split at hexec
    next hpc => exact absurd hpc hen.1
    next dev r hpc =>
      obtain ⟨s₁, hpost, heq⟩ := bind_eq_ok.mp hexec
      obtain ⟨req, hr, hs₁⟩ := bind_eq_ok.mp hpost
      obtain rfl := Except.ok.inj hs₁
      obtain rfl := Except.ok.inj heq
      exact .post hpc (deref_eq_ok.mp hr)
    next r caller hpc =>
      obtain ⟨req, hr, heq⟩ := bind_eq_ok.mp hexec
      split at heq
      next hstate =>
        obtain rfl := Except.ok.inj heq
        -- a thread that comes has been taken out of the queue
        have hawake : t ∉ s.waitqueue r := by simpa [Asleep, hpc] using hen.2
        exact .sleep hpc hawake (deref_eq_ok.mp hr) hstate
      next hstate =>
        -- a request that is not pending is finished
        have hfinished : req.state = .finished := by
          cases hs : req.state with
          | pending => exact absurd hs hstate
          | finished => rfl
        obtain rfl := Except.ok.inj heq
        exact .waited hpc (deref_eq_ok.mp hr) hfinished
    next r state hpc =>
      obtain ⟨_, hreq, heq⟩ := bind_eq_ok.mp hexec
      obtain rfl := require_eq_ok.mp hreq
      obtain rfl := Except.ok.inj heq
      exact .check hpc
    next r hpc =>
      obtain ⟨req, hr, heq⟩ := bind_eq_ok.mp hexec
      obtain rfl := Except.ok.inj heq
      exact .free hpc (by simp [deref_eq_ok.mp hr])
    next r hpc =>
      obtain ⟨req, hr, heq⟩ := bind_eq_ok.mp hexec
      obtain rfl := Except.ok.inj heq
      exact .return hpc (deref_eq_ok.mp hr)

end State

end GeekOS.Blockdev
