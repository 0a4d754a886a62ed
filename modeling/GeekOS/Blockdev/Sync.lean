import GeekOS.Blockdev.Request

/-!
# Synchronous block I/O

`blockdev_issue_sync` takes the code that `blockdev_wait_for_completion` returns for the state of
the request, asserts that it is `BLOCKDEV_REQ_FINISHED`, which is 1, frees the request and reads the
code from the freed request.

* `Outstanding`: a request is notified once, and a wait returns the code of the notification;
* `sync_never_right`: the end of `blockdev_issue_sync` fails for every code and every order of
  completion.
-/

namespace GeekOS.Blockdev

open Result TransitionSystem

variable {T : Type} [DecidableEq T]

namespace State

/-! ## What a wait returns -/

/-- A request that has not been made yet has left no trace. A request is posted once and notified
once, and where it is finished, its code is that of the notification. -/
structure Outstanding (s : State T) : Prop where
  fresh : ∀ r, s.nextReq ≤ r → s.req r = none ∧ s.notified r = none
  outstanding : ∀ r ∈ s.outstanding, r < s.nextReq ∧ s.notified r = none
  nodup : s.outstanding.Nodup
  postRequest : ∀ t dev r, s.pc t = .postRequest dev r →
    r < s.nextReq ∧ r ∉ s.outstanding ∧ s.notified r = none
  poster : ∀ t u dev dev' r, s.pc t = .postRequest dev r → s.pc u = .postRequest dev' r → t = u
  finished : ∀ r req, s.req r = some req → req.state = .finished → s.notified r = some req.rc
  posted : ∀ t r state, s.pc t = .posted r state → s.notified r = some state

/-- The request of a call that is about to return is freed, and no call has returned. -/
structure Unreturned (s : State T) : Prop where
  fresh : ∀ r, s.nextReq ≤ r → s.req r = none
  freed : ∀ t r, s.pc t = .returnRc r → r < s.nextReq ∧ s.req r = none
  returned : s.returned = []

section Steps

variable {s s' : State T} {e : Event T} {t : T} {r : RequestId} {rc : ℤ}

/-- A thread moves to a point other than that in front of the post. -/
theorem Outstanding.move (h : Outstanding s) {p : Pc} (hpc : s'.pc = Function.update s.pc t p)
    (hpost : ∀ dev r, p ≠ .postRequest dev r)
    (hposted : ∀ r state, p = .posted r state → s.notified r = some state)
    (hnext : s'.nextReq = s.nextReq) (hnotified : s'.notified = s.notified)
    (hout : s'.outstanding = s.outstanding)
    (hreq : ∀ r req, s'.req r = some req → s.req r = some req) : Outstanding s' := by
  have hold : ∀ u dev r, s'.pc u = .postRequest dev r → s.pc u = .postRequest dev r := by
    intro u dev r hu
    rw [hpc] at hu
    rcases eq_or_ne u t with rfl | hne
    · exact absurd (by simpa using hu) (hpost dev r)
    · simpa [hne] using hu
  refine ⟨fun r hr => ?_, fun r hr => ?_, hout ▸ h.nodup, fun u dev r hu => ?_,
    fun u v dev dev' r hu hv => h.poster u v dev dev' r (hold u dev r hu) (hold v dev' r hv),
    fun r req hr hstate => ?_, fun u r state hu => ?_⟩
  · rw [hnext] at hr
    rw [hnotified]
    refine ⟨?_, (h.fresh r hr).2⟩
    cases hr' : s'.req r with
    | none => rfl
    | some req =>
      -- no step but `blockdev_create_request` makes a request
      have hsome := hreq r req hr'
      rw [(h.fresh r hr).1] at hsome
      cases hsome
  · rw [hout] at hr
    rw [hnext, hnotified]
    exact h.outstanding r hr
  · rw [hnext, hout, hnotified]
    exact h.postRequest u dev r (hold u dev r hu)
  · rw [hnotified]
    exact h.finished r req (hreq r req hr) hstate
  · rw [hnotified]
    rw [hpc] at hu
    rcases eq_or_ne u t with rfl | hne
    · exact hposted r state (by simpa using hu)
    · exact h.posted u r state (by simpa [hne] using hu)

/-- Every step keeps the order of post, notification and wait. -/
theorem Outstanding.transition (h : Outstanding s) (ht : s.Transition e s') :
    Outstanding s' := by
  cases ht with
  | @issueSync t dev lba numBlocks buf type hpc =>
    -- the identity that the allocation gives out has not been used
    have hfresh := (h.fresh s.nextReq (Nat.le_refl _)).2
    have hpcs : ∀ u p, ((s.blockdevCreateRequest lba numBlocks buf type).2.goto t
        (.postRequest dev s.nextReq)).pc u = p →
        u = t ∧ .postRequest dev s.nextReq = p ∨ u ≠ t ∧ s.pc u = p := by
      intro u p hu
      rcases eq_or_ne u t with rfl | hne
      · exact .inl ⟨rfl, by simpa [State.goto] using hu⟩
      · exact .inr ⟨hne, by simpa [State.goto, blockdevCreateRequest, setReq, hne] using hu⟩
    refine ⟨fun r hr => ?_, fun r hr => ?_, h.nodup, fun u dev' r hu => ?_,
      fun u v d d' r hu hv => ?_, fun r req hr hstate => ?_, fun u r state hu => ?_⟩
    · have hle : s.nextReq + 1 ≤ r := hr
      have hne : r ≠ s.nextReq := Nat.ne_of_gt hle
      obtain ⟨hreq, hnotified⟩ := h.fresh r (Nat.le_of_succ_le hle)
      exact ⟨by simpa [State.goto, blockdevCreateRequest, setReq, hne] using hreq, hnotified⟩
    · obtain ⟨hlt, hnone⟩ := h.outstanding r hr
      exact ⟨Nat.lt_succ_of_lt hlt, hnone⟩
    · rcases hpcs u _ hu with ⟨-, hp⟩ | ⟨-, hold⟩
      · obtain ⟨-, rfl⟩ := Pc.postRequest.inj hp
        exact ⟨Nat.lt_succ_self _, fun hout => Nat.lt_irrefl _ (h.outstanding _ hout).1,
          hfresh⟩
      · obtain ⟨hlt, hout, hnone⟩ := h.postRequest u dev' r hold
        exact ⟨Nat.lt_succ_of_lt hlt, hout, hnone⟩
    · -- the request is new, so that no other thread posts it
      rcases hpcs u _ hu with ⟨rfl, hp⟩ | ⟨hne, hold⟩
      · obtain ⟨-, rfl⟩ := Pc.postRequest.inj hp
        rcases hpcs v _ hv with ⟨rfl, -⟩ | ⟨-, hold'⟩
        · rfl
        · exact absurd (h.postRequest v d' _ hold').1 (Nat.lt_irrefl _)
      · rcases hpcs v _ hv with ⟨-, hp⟩ | ⟨-, hold'⟩
        · obtain ⟨-, rfl⟩ := Pc.postRequest.inj hp
          exact absurd (h.postRequest u d _ hold).1 (Nat.lt_irrefl _)
        · exact h.poster u v d d' r hold hold'
    · rcases eq_or_ne r s.nextReq with rfl | hne
      · simp only [State.goto, blockdevCreateRequest, setReq, Function.update_self,
          Option.some.injEq] at hr
        rw [← hr] at hstate
        cases hstate
      · exact h.finished r req (by simpa [State.goto, blockdevCreateRequest, setReq, hne] using hr)
          hstate
    · rcases hpcs u _ hu with ⟨-, hp⟩ | ⟨-, hold⟩
      · cases hp
      · exact h.posted u r state hold
  | @direct t r hpc hr =>
    refine h.move (t := t) (p := .waitForCompletion r .direct) ?_ (by simp) (by simp) rfl rfl rfl
      fun _ _ => id
    rfl
  | @post t dev r req hpc hr =>
    -- one thread posts the request, once, so it is not with a driver yet
    obtain ⟨hlt, hout, hnone⟩ := h.postRequest t dev r hpc
    have hpcs : ∀ u p, p ≠ .waitForCompletion r .issueSync →
        ((s.setReq r { req with dev := some dev }).goto t
          (.waitForCompletion r .issueSync)).pc u = p → u ≠ t ∧ s.pc u = p := by
      intro u p hp hu
      rcases eq_or_ne u t with rfl | hne
      · exact absurd (by simpa [State.goto] using hu.symm) hp
      · exact ⟨hne, by simpa [State.goto, setReq, hne] using hu⟩
    refine ⟨fun r' hr' => ?_, fun r' hr' => ?_, List.nodup_cons.mpr ⟨hout, h.nodup⟩,
      fun u dev' r' hu => ?_, fun u v d d' r' hu hv => ?_, fun r' req' hr' hstate => ?_,
      fun u r' state hu => h.posted u r' state (hpcs u _ (by simp) hu).2⟩
    · have hle : s.nextReq ≤ r' := hr'
      have hne : r' ≠ r := Nat.ne_of_gt (Nat.lt_of_lt_of_le hlt hle)
      simpa [State.goto, setReq, hne] using h.fresh r' hr'
    · rcases List.mem_cons.mp hr' with rfl | hr'
      · exact ⟨hlt, hnone⟩
      · exact h.outstanding r' hr'
    · obtain ⟨hne, hold⟩ := hpcs u _ (by simp) hu
      obtain ⟨hlt', hout', hnone'⟩ := h.postRequest u dev' r' hold
      refine ⟨hlt', fun hin => ?_, hnone'⟩
      rcases List.mem_cons.mp hin with rfl | hin
      · exact hne (h.poster u t dev' dev _ hold hpc)
      · exact hout' hin
    · exact h.poster u v d d' r' (hpcs u _ (by simp) hu).2 (hpcs v _ (by simp) hv).2
    · rcases eq_or_ne r' r with rfl | hne
      · have heq : { req with dev := some dev } = req' := by
          simpa [State.goto, setReq] using hr'
        subst heq
        exact h.finished r' req hr hstate
      · exact h.finished r' req' (by simpa [State.goto, setReq, hne] using hr') hstate
  | sleep hpc hawake hr hstate =>
    exact ⟨h.fresh, h.outstanding, h.nodup, h.postRequest, h.poster, h.finished, h.posted⟩
  | @waited t r caller req hpc hr hstate =>
    -- the loop has ended because the request is finished, and its code is that of the notification
    refine h.move (t := t) (p := caller.goesOn r req.rc) rfl ?_ ?_ rfl rfl rfl fun _ _ => id
    · cases caller <;> simp [WaitCaller.goesOn]
    · intro r' state hp
      cases caller with
      | direct => cases hp
      | issueSync =>
        obtain ⟨rfl, rfl⟩ := Pc.posted.inj hp
        exact h.finished r req hr hstate
  | @check t r hpc =>
    refine h.move (t := t) (p := .freeReq r) ?_ (by simp) (by simp) rfl rfl rfl fun _ _ => id
    rfl
  -- what has been freed is finished no more
  | @free t r hpc hr =>
    refine h.move (t := t) (p := .returnRc r) rfl (by simp) (by simp) rfl rfl rfl ?_
    intro r' req hr'
    rcases eq_or_ne r' r with rfl | hne
    · simp at hr'
    · simpa [hne] using hr'
  | @«return» t r req hpc hr =>
    exact h.move (t := t) (p := .idle) rfl (by simp) (by simp) rfl rfl rfl fun _ _ => id
  | @notify r rc req hout hr =>
    obtain ⟨hlt, hnone⟩ := h.outstanding r hout
    refine ⟨fun r' hr' => ?_, fun r' hr' => ?_, h.nodup.erase r, fun u dev r' hu => ?_, h.poster,
      fun r' req' hr' hstate => ?_, fun u r' state hu => ?_⟩
    · have hle : s.nextReq ≤ r' := hr'
      have hne : r' ≠ r := Nat.ne_of_gt (Nat.lt_of_lt_of_le hlt hle)
      simpa [setReq, hne] using h.fresh r' hr'
    · -- the request is on the list once, so it is notified once
      obtain ⟨hne, hr'⟩ := h.nodup.mem_erase_iff.mp hr'
      simpa [setReq, hne] using h.outstanding r' hr'
    · obtain ⟨hlt', hout', hnone'⟩ := h.postRequest u dev r' hu
      have hne : r' ≠ r := fun heq => hout' (heq ▸ hout)
      exact ⟨hlt', fun hin => hout' (List.mem_of_mem_erase hin), by simpa [hne] using hnone'⟩
    · rcases eq_or_ne r' r with rfl | hne
      · have heq : { req with state := .finished, rc } = req' := by simpa [setReq] using hr'
        rw [← heq]
        exact Function.update_self ..
      · simpa [hne] using h.finished r' req' (by simpa [setReq, hne] using hr') hstate
    · -- a request whose wait is over has been notified already
      have hold := h.posted u r' state hu
      have hne : r' ≠ r := by
        rintro rfl
        rw [hnone] at hold
        cases hold
      simpa [hne] using hold

/-- No call returns: it would have to read the request that it has freed. -/
theorem Unreturned.transition (h : Unreturned s) (ht : s.Transition e s') : Unreturned s' := by
  have hmove : ∀ {t : T} {p : Pc} {u : T} {r : RequestId}, p ≠ .returnRc r →
      Function.update s.pc t p u = .returnRc r → s.pc u = .returnRc r := by
    intro t p u r hp hu
    rcases eq_or_ne u t with rfl | hne
    · exact absurd (by simpa using hu) hp
    · simpa [hne] using hu
  -- storing into a request brings no freed one back
  have hset : ∀ {r : RequestId} {req req' : Request}, s.req r = some req → ∀ r',
      s.req r' = none → (s.setReq r req').req r' = none := by
    intro r req req' hr r' hnone
    have hne : r' ≠ r := by
      rintro rfl
      rw [hnone] at hr
      cases hr
    simpa [setReq, hne] using hnone
  cases ht with
  | @issueSync t dev lba numBlocks buf type hpc =>
    refine ⟨fun r hr => ?_, fun u r hu => ?_, h.returned⟩
    · have hle : s.nextReq + 1 ≤ r := hr
      have hne : r ≠ s.nextReq := Nat.ne_of_gt hle
      simpa [State.goto, blockdevCreateRequest, setReq, hne] using
        h.fresh r (Nat.le_of_succ_le hle)
    · obtain ⟨hlt, hnone⟩ := h.freed u r (hmove (by simp) hu)
      have hne : r ≠ s.nextReq := Nat.ne_of_lt hlt
      exact ⟨Nat.lt_succ_of_lt hlt,
        by simpa [State.goto, blockdevCreateRequest, setReq, hne] using hnone⟩
  | post hpc hr =>
    refine ⟨fun r' hr' => hset hr r' (h.fresh r' hr'), fun u r' hu => ?_, h.returned⟩
    obtain ⟨hlt, hnone⟩ := h.freed u r' (hmove (by simp) hu)
    exact ⟨hlt, hset hr r' hnone⟩
  | sleep | direct | check =>
    refine ⟨h.fresh, fun u r hu => ?_, h.returned⟩
    first
    | exact h.freed u r hu
    | exact h.freed u r (hmove (by simp) hu)
  | @waited t r caller req hpc hr hstate =>
    refine ⟨h.fresh, fun u r' hu => h.freed u r' (hmove ?_ hu), h.returned⟩
    cases caller <;> simp [WaitCaller.goesOn]
  | @free t r hpc hr =>
    have hlt : r < s.nextReq := by
      by_contra hge
      exact hr (h.fresh r (Nat.le_of_not_lt hge))
    have hnone : ∀ r', s.req r' = none → Function.update s.req r none r' = none := by
      intro r' hnone
      rcases eq_or_ne r' r with rfl | hne
      · simp
      · simpa [hne] using hnone
    refine ⟨fun r' hr' => hnone r' (h.fresh r' hr'), fun u r' hu => ?_, h.returned⟩
    rcases eq_or_ne u t with rfl | hne
    · obtain rfl : r = r' := by simpa [State.goto] using hu
      exact ⟨hlt, by simp⟩
    · obtain ⟨hlt', hfreed⟩ := h.freed u r' (by simpa [State.goto, hne] using hu)
      exact ⟨hlt', hnone r' hfreed⟩
  | @«return» t r req hpc hr =>
    -- `return req->rc` finds the request freed, so no call gets past it
    have hnone := (h.freed t r hpc).2
    rw [hr] at hnone
    cases hnone
  | notify hout hr =>
    refine ⟨fun r' hr' => hset hr r' (h.fresh r' hr'), fun u r' hu => ?_, h.returned⟩
    obtain ⟨hlt, hnone⟩ := h.freed u r' hu
    exact ⟨hlt, hset hr r' hnone⟩

/-! ## The end of `blockdev_issue_sync` -/

/-- What follows the wait of a thread in `blockdev_issue_sync`, without another thread in between:
the assertion, `mem_free` and the return. -/
def finish (s : State T) (t : T) : Except Fault (State T) := do
  let s ← s.resume t
  let s ← s.resume t
  s.resume t

/-- The call fails no assertion, frees its request once, does not read it afterwards and returns
the code. -/
def FinishesRight (s : State T) (t : T) (r : RequestId) (rc : ℤ) : Prop :=
  ∃ s', s.finish t = .ok s' ∧ s'.returned = (t, r, rc) :: s.returned ∧ s'.freed = r :: s.freed

theorem resume_posted {state : ℤ} (hpc : s.pc t = .posted r state) :
    s.resume t =
      if state = ReqState.finished.toInt then .ok (s.goto t (.freeReq r))
      else .error .finished := by
  simp only [resume, hpc, require]
  split <;> rfl

theorem resume_freeReq (hpc : s.pc t = .freeReq r) :
    s.resume t = .error (.invalidAccess r) ∨
      ∃ s', s.resume t = .ok s' ∧ s'.pc t = .returnRc r ∧ s'.req r = none := by
  simp only [resume, hpc, deref]
  cases s.req r with
  | none => exact .inl rfl
  | some req => exact .inr ⟨_, rfl, by simp [State.goto], by simp⟩

theorem resume_returnRc (hpc : s.pc t = .returnRc r) (hr : s.req r = none) :
    s.resume t = .error (.invalidAccess r) := by
  simp only [resume, hpc, deref, hr]
  rfl

/-- The end of the call fails: at the assertion for every code but 1, and for this code at the
return, which reads the request that has just been freed. -/
theorem finish_error {state : ℤ} (hpc : s.pc t = .posted r state) :
    s.finish t =
      .error (if state = ReqState.finished.toInt then .invalidAccess r else .finished) := by
  unfold finish
  rw [resume_posted hpc]
  by_cases hone : state = ReqState.finished.toInt
  · rw [if_pos hone, if_pos hone, ok_bind]
    have hpc₁ : (s.goto t (.freeReq r)).pc t = .freeReq r := Function.update_self ..
    rcases resume_freeReq hpc₁ with herr | ⟨s₂, hok, hpc₂, hnone⟩
    · rw [herr, error_bind]
    · rw [hok, ok_bind, resume_returnRc hpc₂ hnone]
  · rw [if_neg hone, if_neg hone, error_bind]

end Steps

/-! ## The result -/

omit [DecidableEq T] in
theorem initial_outstanding : Outstanding (initial : State T) := by
  refine ⟨fun r _ => ⟨rfl, rfl⟩, fun r hr => ?_, List.nodup_nil, fun t dev r ht => ?_,
    fun t u dev dev' r ht => ?_, fun r req hr => ?_, fun t r state ht => ?_⟩
  · cases hr
  · cases ht
  · cases ht
  · cases hr
  · cases ht

omit [DecidableEq T] in
theorem initial_unreturned : Unreturned (initial : State T) := by
  refine ⟨fun r _ => rfl, fun t r ht => ?_, rfl⟩
  cases ht

/-- Whatever the driver passes to `blockdev_notify_complete`, and whenever it does: a call of
`blockdev_read_sync` or `blockdev_write_sync` whose wait is over, with this code, does not go on to
return it, and none has ever returned. -/
theorem sync_never_right {s : State T} (h : Reachable Step initial s) :
    s.returned = [] ∧ ∀ t r state, s.pc t = .posted r state →
      s.notified r = some state ∧ ¬s.FinishesRight t r state := by
  have hI : Outstanding s ∧ Unreturned s := by
    refine h.invariant (I := fun s => Outstanding s ∧ Unreturned s)
      ⟨initial_outstanding, initial_unreturned⟩ ?_
    rintro s e s' ⟨hout, hun⟩ hstep
    exact ⟨hout.transition hstep.transition, hun.transition hstep.transition⟩
  refine ⟨hI.2.returned, fun t r state hpc => ⟨hI.1.posted t r state hpc, ?_⟩⟩
  rintro ⟨s', hfinish, -⟩
  rw [finish_error hpc] at hfinish
  cases hfinish

/-- A read whose driver completes it with the code `rc` before `post_request` returns, or after the
thread has gone to sleep. -/
def readSync (asleep : Bool) (rc : ℤ) : List (Event (Fin 1)) :=
  [.issueSync 0 0 0 1 0 .read, .resume 0] ++
    (if asleep then [.resume 0, .notifyComplete 0 rc] else [.notifyComplete 0 rc]) ++ [.resume 0]

/-- Every code comes back from the wait, in either order. -/
theorem readSync_posted (asleep : Bool) (rc : ℤ) :
    Reachable Step initial (after Enabled exec initial (readSync asleep rc)) ∧
      (after Enabled exec initial (readSync asleep rc)).pc 0 = .posted 0 rc := by
  cases asleep <;> exact ⟨reachable_after rfl, rfl⟩

/-- A read that the driver has completed with 0: the assertion fails. -/
theorem not_finishesRight_readSync :
    Reachable Step initial (after Enabled exec initial (readSync true 0)) ∧
      (after Enabled exec initial (readSync true 0)).pc 0 = .posted 0 0 ∧
      (after Enabled exec initial (readSync true 0)).exec (.resume 0) = .error .finished ∧
      ¬(after Enabled exec initial (readSync true 0)).FinishesRight 0 0 0 := by
  obtain ⟨hreach, hpc⟩ := readSync_posted true 0
  refine ⟨hreach, hpc, resume_posted hpc, ?_⟩
  rintro ⟨s', hfinish, -⟩
  rw [finish_error hpc] at hfinish
  cases hfinish

/-- With the code 1 the assertion holds, and the call reads the request after it has freed it. -/
theorem sync_never_right_readSync :
    (after Enabled exec initial (readSync false 1)).pc 0 = .posted 0 1 ∧
      ¬(after Enabled exec initial (readSync false 1)).FinishesRight 0 0 1 := by
  obtain ⟨hreach, hpc⟩ := readSync_posted false 1
  exact ⟨hpc, ((sync_never_right hreach).2 0 0 1 hpc).2⟩

end State

end GeekOS.Blockdev
