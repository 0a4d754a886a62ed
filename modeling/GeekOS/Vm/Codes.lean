import GeekOS.Vm.Records

/-!
# Return codes of `vm_lock_page`

`vm_alloc_and_page_in` returns what `read_page` has returned. Where the page is on the page list
already, nothing assigns the variable `rc` before it is returned if the page is good, and if it is
not, `rc` is read from `frame->errc`, which nothing assigns either.

* `Return.Right`: what the code of a call should tell its caller;
* `codesRight_iff_codesStep`: when it does.
-/

namespace GeekOS.Vm

open Result Threads TransitionSystem

variable {T F : Type}

/-- A call returns 0 if and only if it has stored a frame that was loaded, and it returns the error
of the page-in of its frame and stores nothing otherwise. -/
structure Return.Right (r : Return T F) : Prop where
  zero : r.rc = 0 ↔ r.stored = some r.frame ∧ r.pageinRc = some 0
  error : ∀ e, e ≠ 0 → r.pageinRc = some e → r.rc = e ∧ r.stored = none

namespace State

/-- Every call of `vm_lock_page` that has returned has returned the right code, and no thread goes
on sleeping for a page that is not being loaded. -/
structure CodesRight (s : State T F) : Prop where
  returned : ∀ r ∈ s.returned, r.Right
  asleep : ∀ t ∈ s.cond, ∃ r f, s.pc t = .condWait r f ∧ (s.frame f).content = .pendingInit

/-- The thread is about to come to a frame on the page list, at once or behind `cond_wait`. -/
def ComesTo (s : State T F) (t : T) (r : Request) (f : F) : Prop :=
  s.pc t = .lockPage r ∧ s.lookup r.pageNum = some f ∨ s.pc t = .condWait r f

/-- Where a call comes to a frame on the page list that is loaded, its variable `rc` happens to be
0, and where the frame could not be loaded, its field `errc` happens to be the error. -/
def CodesStep (s : State T F) (e : Event T F) : Prop :=
  ∀ t r f, e = .resume t → s.ComesTo t r f →
    ((s.frame f).content.IsValid → r.rc = 0) ∧
      ((s.frame f).content = .failedInit → s.pageinRc f = some (s.frame f).errc)

section Codes

variable {s s' s₀ : State T F} {t : T} {r : Request} {f : F} {e : Event T F}

/-- The frame is determined by the thread. -/
theorem ComesTo.unique {r' : Request} {f' : F} (h : s.ComesTo t r f) (h' : s.ComesTo t r' f') :
    r' = r ∧ f' = f := by
  rcases h with ⟨hpc, hf⟩ | hpc <;> rcases h' with ⟨hpc', hf'⟩ | hpc'
  · obtain rfl := Pc.lockPage.inj (hpc'.symm.trans hpc)
    exact ⟨rfl, Option.some.inj (hf'.symm.trans hf)⟩
  · cases hpc'.symm.trans hpc
  · cases hpc'.symm.trans hpc
  · exact Pc.condWait.inj (hpc'.symm.trans hpc)

/-- Where the thread of the event comes to a frame, the condition is about this frame. -/
theorem codesStep_iff (h : s.ComesTo t r f) : s.CodesStep (.resume t) ↔
    ((s.frame f).content.IsValid → r.rc = 0) ∧
      ((s.frame f).content = .failedInit → s.pageinRc f = some (s.frame f).errc) := by
  constructor
  · intro hC
    exact hC t r f rfl h
  · rintro hC u r' f' heq h'
    obtain rfl := Event.resume.inj heq
    obtain ⟨rfl, rfl⟩ := h.unique h'
    exact hC

/-- Where it comes to none, there is no condition. -/
theorem codesStep_of_not (h : ∀ t r f, e = .resume t → ¬s.ComesTo t r f) : s.CodesStep e :=
  fun t r f heq hto => absurd hto (h t r f heq)

variable [DecidableEq F]

theorem Comes.comesTo {s₁ : State T F} (h : s.Comes t r f s₁) : s.ComesTo t r f := by
  cases h with
  | hit hpc hf => exact .inl ⟨hpc, hf⟩
  | woken hpc _ => exact .inr hpc

variable [DecidableEq T] [Fintype T]

/-- The code of the call that returns at a step is right when the step meets the condition. -/
theorem Transition.returned_iff (h : s.Transition e s') (hr : s.Recorded) (hs : s.Sound)
    (hold : ∀ r ∈ s.returned, r.Right) : (∀ r ∈ s'.returned, r.Right) ↔ s.CodesStep e := by
  -- at most one call returns at a step; the codes of the others are right already
  have hkeep : s'.returned = s.returned → s.CodesStep e →
      ((∀ r ∈ s'.returned, r.Right) ↔ s.CodesStep e) := by
    intro heq hC
    rw [heq]
    exact iff_of_true hold hC
  have hnew : ∀ {r : Return T F}, s'.returned = r :: s.returned →
      ((∀ r ∈ s'.returned, r.Right) ↔ r.Right) := by
    intro r heq
    rw [heq, List.forall_mem_cons]
    exact and_iff_left hold
  -- away from the search and the condition variable a step comes to no frame of the list
  have hno : ∀ {t : T} {p : Pc F}, s.pc t = p → (∀ r, p ≠ .lockPage r) →
      (∀ r f, p ≠ .condWait r f) → ∀ u r f, (.resume t : Event T F) = .resume u →
      ¬s.ComesTo u r f := by
    rintro t p hpc hlock hwait u r f heq (⟨hpc', -⟩ | hpc') <;> obtain rfl := Event.resume.inj heq
    · exact hlock r (hpc.symm.trans hpc')
    · exact hwait r f (hpc.symm.trans hpc')
  cases h with
  | @wait t r f s₁ hlock hs₁ hc =>
    have hto := hs₁.comesTo
    obtain ⟨pool, rfl, -, hsame⟩ := hs₁.eq
    rw [frame, (hsame f).1] at hc
    -- the frame is still pending, which neither half of the condition is about
    refine hkeep rfl ((codesStep_iff hto).mpr ?_)
    simp [hc, PageContent.IsValid]
  | @failed t r f s₁ hlock hs₁ hc hpos =>
    have hto := hs₁.comesTo
    have hf := hs.listed_of_comes hs₁
    obtain ⟨pool, rfl, -, hsame⟩ := hs₁.eq
    rw [frame, (hsame f).1] at hc
    obtain ⟨e, hne, hrc⟩ := hr.failed f hf hc
    have hret : ((({ s with pool } : State T F).released f).returns t r f (s.pageinRc f)
        (s.filled f) (pool.frame f).errc none).returned =
          { thread := t, pageNum := r.pageNum, frame := f, pageinRc := some e,
            filled := s.filled f, rc := (s.frame f).errc, stored := none } :: s.returned := by
      rw [hrc, (hsame f).2]
      simp [returns]
    refine (hnew hret).trans (Iff.trans ?_ (codesStep_iff hto).symm)
    rw [hrc]
    -- `rc = frame->errc` is returned, so `errc` must be the error of the page-in
    simp only [hc, forall_const, PageContent.IsValid, reduceCtorEq, or_self, false_implies,
      true_and, Option.some.injEq]
    constructor
    · intro hright
      exact (hright.error e hne rfl).1.symm
    · rintro rfl
      exact ⟨by simp [hne], by simp⟩
  | @granted t r f s₁ hlock hs₁ hc =>
    have hto := hs₁.comesTo
    have hf := hs.listed_of_comes hs₁
    obtain ⟨pool, rfl, -, hsame⟩ := hs₁.eq
    rw [frame, (hsame f).1] at hc
    have hrc := hr.valid f hf hc
    have hne : (s.frame f).content ≠ .failedInit := by
      intro hfailed
      rw [hfailed] at hc
      rcases hc with hc | hc <;> cases hc
    have hret : (({ s with pool } : State T F).returns t r f (s.pageinRc f) (s.filled f) r.rc
        (some f)).returned =
          { thread := t, pageNum := r.pageNum, frame := f, pageinRc := some 0,
            filled := s.filled f, rc := r.rc, stored := some f } :: s.returned := by
      rw [← hrc]
      rfl
    refine (hnew hret).trans (Iff.trans ?_ (codesStep_iff hto).symm)
    rw [hrc]
    -- nothing has assigned `rc`, so what it held when it was declared must be 0
    simp only [hc, hne, forall_const, false_implies, and_true]
    constructor
    · intro hright
      exact hright.zero.mpr ⟨rfl, rfl⟩
    · intro hzero
      exact ⟨by simp [hzero], fun e hne heq => absurd (Option.some.inj heq).symm hne⟩
  | @loaded t r f hlock hpc =>
    have hrc := (hr.pagedIn t r f 0 hpc).2
    -- the code of `vm_alloc_and_page_in` is returned as it is
    refine iff_of_true ((hnew rfl).mpr ?_) (codesStep_of_not (hno hpc (by simp) (by simp)))
    exact ⟨by simp [hrc], fun e hne heq => absurd (Option.some.inj (hrc.symm.trans heq)).symm hne⟩
  | @loadFailed t r f rc hlock hpc hrc hpos =>
    have hrecord := (hr.pagedIn t r f rc hpc).2
    have hret : (((s.initialised f .failedInit).released f).returns t r f (s.pageinRc f)
        (s.filled f) rc none).returned =
          { thread := t, pageNum := r.pageNum, frame := f, pageinRc := some rc,
            filled := s.filled f, rc, stored := none } :: s.returned := by
      rw [hrecord]
      simp [returns, State.initialised, setFrame]
    refine iff_of_true ((hnew hret).mpr ?_) (codesStep_of_not (hno hpc (by simp) (by simp)))
    exact ⟨by simp [hrc], fun e hne heq => ⟨Option.some.inj heq, rfl⟩⟩
  | @miss t r hlock hpc hf =>
    refine hkeep rfl (codesStep_of_not ?_)
    rintro u r' f heq (⟨hpc', hf'⟩ | hpc') <;> obtain rfl := Event.resume.inj heq
    · obtain rfl := Pc.lockPage.inj (hpc'.symm.trans hpc)
      rw [hf] at hf'
      cases hf'
    · cases hpc'.symm.trans hpc
  | @alloc t r f rest hlock hpc hfree =>
    exact hkeep rfl (codesStep_of_not (hno hpc (by simp) (by simp)))
  | call | readPage | unlock | otherAlloc | otherStore | otherFree =>
    exact hkeep rfl (codesStep_of_not fun _ _ _ heq => by cases heq)

/-- In a run, every call returns the right code if and only if every step meets the condition. -/
theorem codesRight_iff_codesStep {tr : List (State T F × Event T F)} (h₀ : s₀.Initial)
    (h : Run Step s₀ tr s) :
    (∀ s' ∈ visited tr s, s'.CodesRight) ↔ ∀ p ∈ tr, p.1.CodesStep p.2 := by
  refine h.states_iff_steps (I := fun s => s.Sound ∧ s.Recorded) ⟨h₀.sound, h₀.recorded⟩ ?_ ?_ ?_
  · rintro s e s' ⟨hs, hr⟩ hstep
    have ht := hs.transition_of_step hstep
    exact ⟨hs.transition ht, hr.transition hs ht⟩
  · exact ⟨by simp [h₀.returned], by simp [h₀.cond]⟩
  · rintro s e s' ⟨hs, hr⟩ hP hstep
    have ht := hs.transition_of_step hstep
    rw [← ht.returned_iff hr hs hP.returned]
    exact ⟨fun hP' => hP'.returned, fun hret => ⟨hret, (hs.transition ht).contents.asleep⟩⟩

end Codes

/-! ## Runs in which codes are wrong -/

attribute [local instance] neZero_two in
/-- The call of the second thread in `failedPage`: it returns 0 and stores nothing. -/
def failedReturn : Return (Fin 2) (Fin 2) where
  thread := 1
  pageNum := 0
  frame := 0
  pageinRc := some (-6)
  filled := none
  rc := 0
  stored := none

/-- A thread that waited for a page that could not be loaded is told that it was. -/
theorem not_codesRight_failedPage :
    ∃ s, Reachable Step (fresh [0, 1]) s ∧ failedReturn ∈ s.returned ∧ ¬s.CodesRight := by
  have hrun : (runs Enabled exec (fresh [0, 1]) failedPage).isSome := by decide
  have hmem : failedReturn ∈ (after Enabled exec (fresh [0, 1]) failedPage).returned := by decide
  refine ⟨_, reachable_after hrun, hmem, fun h => ?_⟩
  have hright := (h.returned _ hmem).error (-6) (by decide) rfl
  exact absurd hright.1 (by decide)

/-- A thread loads a page, and its stack happens to hold 0 when it finds the page later. -/
theorem codesRight_iff_codesStep_loadedPage :
    ∃ tr s, Run Step (fresh [0] : State (Fin 1) (Fin 1)) tr s ∧
      ((∀ s' ∈ visited tr s, s'.CodesRight) ↔ ∀ p ∈ tr, p.1.CodesStep p.2) := by
  have hrun : (runs Enabled exec (fresh [0] : State (Fin 1) (Fin 1)) loadedPage).isSome := by
    decide
  obtain ⟨tr, hr⟩ := run_after hrun
  exact ⟨tr, _, hr, codesRight_iff_codesStep (fresh_initial (by decide)) hr⟩

end State

end GeekOS.Vm
