import GeekOS.Vm.Contents

/-!
# References and page-ins

The reference count of a frame on the page list is the number of the threads that are loading it or
waiting for it and of the locks granted on it. A frame leaves the list when its page-in has failed
and the last of these references is dropped.

* `Recorded`: the contents of a frame agree with what its page-in has returned;
* `refcounts_of_reachable`: the result.
-/

namespace GeekOS.Vm

open Result Threads TransitionSystem

variable {T F : Type}

namespace State

/-- The page-in of the frame has returned an error. -/
def Failed (s : State T F) (f : F) : Prop := ∃ rc, rc ≠ 0 ∧ s.pageinRc f = some rc

/-- The contents of a frame agree with what `read_page` has returned for it. -/
structure Recorded (s : State T F) : Prop where
  valid : ∀ f ∈ s.pagelist, (s.frame f).content.IsValid → s.pageinRc f = some 0
  failed : ∀ f ∈ s.pagelist, (s.frame f).content = .failedInit → s.Failed f
  pagein : ∀ t r f, s.pc t = .pagein r f → s.pageOf f = r.pageNum
  pagedIn : ∀ t r f rc, s.pc t = .pagedIn r f rc →
    s.pageOf f = r.pageNum ∧ s.pageinRc f = some rc
  filled : ∀ f ∈ s.pagelist, s.pageinRc f = some 0 → s.filled f = some (s.pageOf f)

namespace Recorded

variable {s s' : State T F} {t : T} {f : F} {r : Request} {e : Event T F}

/-- The state changes in nothing that concerns the page-ins. -/
theorem transfer (h : Recorded s)
    (hcontent : ∀ f ∈ s.pagelist, (s'.frame f).content = (s.frame f).content)
    (hlist : ∀ f ∈ s'.pagelist, f ∈ s.pagelist)
    (hpc : ∀ u f, (s'.pc u).Loads f → s'.pc u = s.pc u)
    (hpageOf : s'.pageOf = s.pageOf) (hrc : s'.pageinRc = s.pageinRc)
    (hfilled : s'.filled = s.filled) : Recorded s' where
  valid f hf hc := by
    rw [hcontent f (hlist f hf)] at hc
    rw [hrc]
    exact h.valid f (hlist f hf) hc
  failed f hf hc := by
    rw [hcontent f (hlist f hf)] at hc
    unfold Failed
    rw [hrc]
    exact h.failed f (hlist f hf) hc
  pagein t r f ht := by
    rw [hpageOf]
    exact h.pagein t r f (hpc t f (by rw [ht]; rfl) ▸ ht)
  pagedIn t r f rc ht := by
    rw [hpageOf, hrc]
    exact h.pagedIn t r f rc (hpc t f (by rw [ht]; rfl) ▸ ht)
  filled f hf hf' := by
    rw [hrc] at hf'
    rw [hpageOf, hfilled]
    exact h.filled f (hlist f hf) hf'

/-- The outcome of a page-in is stored. -/
theorem initialised [DecidableEq F] {rc : ℤ} {content : PageContent} (h : Recorded s)
    (hpc : s.pc t = .pagedIn r f rc)
    (hc : rc = 0 ∧ content = .clean ∨ rc ≠ 0 ∧ content = .failedInit) :
    Recorded (s.initialised f content) := by
  -- the code that the thread carries is the one that `read_page` has returned for the frame
  have hrc := (h.pagedIn t r f rc hpc).2
  have hframe : ∀ g, g ≠ f → ((s.initialised f content).frame g).content = (s.frame g).content := by
    intro g hne
    simp [State.initialised, setFrame, frame, hne]
  have hself : ((s.initialised f content).frame f).content = content := by
    simp [State.initialised, setFrame, frame]
  refine ⟨fun g hg hv => ?_, fun g hg hfailed => ?_, h.pagein, h.pagedIn, h.filled⟩
  · rcases eq_or_ne g f with rfl | hne
    · rw [hself] at hv
      rcases hc with ⟨rfl, -⟩ | ⟨-, rfl⟩
      · exact hrc
      · rcases hv with hv | hv <;> cases hv
    · rw [hframe g hne] at hv
      exact h.valid g hg hv
  · rcases eq_or_ne g f with rfl | hne
    · rw [hself] at hfailed
      rcases hc with ⟨-, rfl⟩ | ⟨hne, -⟩
      · cases hfailed
      · exact ⟨rc, hne, hrc⟩
    · rw [hframe g hne] at hfailed
      exact h.failed g hg hfailed

variable [DecidableEq T]

/-- A thread that moves without loading anything is of no concern. -/
theorem loads_goto {p : Pc F} (hp : ∀ f, ¬p.Loads f) (u : T) (f : F)
    (hu : ((s.goto t p).pc u).Loads f) : (s.goto t p).pc u = s.pc u := by
  -- only the thread that allocates the frame goes on to `read_page` for it
  rcases eq_or_ne u t with rfl | hne
  · simp [State.goto, hp] at hu
  · simp [State.goto, hne]

/-- A thread leaves a section without a lock. -/
theorem returns {s₁ : State T F} {rc : ℤ} {pageinRc : Option ℤ} {filled : Option PageNum}
    (h : Recorded s) (hcontent : ∀ f ∈ s.pagelist, (s₁.frame f).content = (s.frame f).content)
    (hlist : ∀ f ∈ s₁.pagelist, f ∈ s.pagelist) (hpc : s₁.pc = s.pc)
    (hrecord : s₁.pageOf = s.pageOf ∧ s₁.pageinRc = s.pageinRc ∧ s₁.filled = s.filled) :
    Recorded (s₁.returns t r f pageinRc filled rc none) := by
  refine h.transfer hcontent hlist (fun u g hu => ?_) hrecord.1 hrecord.2.1 hrecord.2.2
  exact (loads_goto (s := s₁) (by simp [Pc.Loads]) u g hu).trans (congrFun hpc u)

variable [DecidableEq F] [Fintype T]

/-- Every step keeps them in agreement. -/
theorem transition (h : Recorded s) (hs : s.Sound) (ht : s.Transition e s') : Recorded s' := by
  cases ht with
  | call hpc =>
    exact h.transfer (fun _ _ => rfl) (fun _ => id) (loads_goto (by simp [Pc.Loads])) rfl rfl rfl
  | miss hlock hpc hf =>
    exact h.transfer (fun _ _ => rfl) (fun _ => id) (loads_goto (by simp [Pc.Loads])) rfl rfl rfl
  | wait hlock hs₁ hc =>
    obtain ⟨pool, rfl, -, hsame⟩ := hs₁.eq
    exact h.transfer (fun g _ => (hsame g).1) (fun _ => id) (loads_goto (by simp [Pc.Loads])) rfl
      rfl rfl
  | @failed t r f s₁ hlock hs₁ hc hpos =>
    obtain ⟨pool, rfl, -, hsame⟩ := hs₁.eq
    refine h.returns (fun g _ => ?_)
      (fun g hg => released_pagelist (s := ({ s with pool } : State T F)) hg) released_pc ?_
    · rw [released_content]
      exact (hsame g).1
    · obtain ⟨_, _, heq⟩ := released_eq (s := ({ s with pool } : State T F)) (f := f)
      rw [heq]
      exact ⟨rfl, rfl, rfl⟩
  | granted hlock hs₁ hc =>
    obtain ⟨pool, rfl, -, hsame⟩ := hs₁.eq
    exact h.transfer (fun g _ => (hsame g).1) (fun _ => id) (loads_goto (by simp [Pc.Loads])) rfl
      rfl rfl
  | @alloc t r f rest hlock hpc hfree =>
    -- the frame comes from the free list, so it is none of those the invariant speaks about
    obtain ⟨hlist, -, -⟩ := hs.referenced.not_listed hfree
    have hmem : ∀ g ∈ (s.allocated t r f rest).pagelist, g ∈ s.pagelist ∨ g = f := by
      intro g hg
      simpa [State.allocated] using hg
    have hold : ∀ g ∈ s.pagelist, g ≠ f := fun g hg heq => hlist (heq ▸ hg)
    have hself : ((s.allocated t r f rest).frame f).content = .pendingInit := by
      simp [State.allocated, frame]
    refine ⟨fun g hg hc => ?_, fun g hg hc => ?_, fun u r' g hu => ?_, fun u r' g rc hu => ?_,
      fun g hg hz => ?_⟩
    · rcases hmem g hg with hg | rfl
      · have hne := hold g hg
        simp only [State.allocated, frame, Function.update_of_ne hne, FramePool.setFrame_frame]
          at hc ⊢
        exact h.valid g hg hc
      · rw [hself] at hc
        rcases hc with hc | hc <;> cases hc
    · rcases hmem g hg with hg | rfl
      · have hne := hold g hg
        simp only [State.allocated, Failed, frame, Function.update_of_ne hne,
          FramePool.setFrame_frame] at hc ⊢
        exact h.failed g hg hc
      · rw [hself] at hc
        cases hc
    · rcases eq_or_ne u t with rfl | hne
      · simp only [State.allocated, State.goto, Function.update_self, Pc.pagein.injEq] at hu ⊢
        obtain ⟨rfl, rfl⟩ := hu
        simp
      · have hu : s.pc u = .pagein r' g := by simpa [State.allocated, State.goto, hne] using hu
        have hg := Contents.listed_of_loads hs.referenced (t := u) (f := g) (by rw [hu]; rfl)
        simpa [State.allocated, hold g hg] using h.pagein u r' g hu
    · rcases eq_or_ne u t with rfl | hne
      · simp [State.allocated, State.goto] at hu
      · have hu : s.pc u = .pagedIn r' g rc := by simpa [State.allocated, State.goto, hne] using hu
        have hg := Contents.listed_of_loads hs.referenced (t := u) (f := g) (by rw [hu]; rfl)
        simpa [State.allocated, hold g hg] using h.pagedIn u r' g rc hu
    · rcases hmem g hg with hg | rfl
      · simp only [State.allocated, Function.update_of_ne (hold g hg)] at hz ⊢
        exact h.filled g hg hz
      · simp [State.allocated] at hz
  | @readPage t r f rc hpc =>
    -- a frame that a thread loads is neither valid nor failed, whatever `read_page` returns
    have hpending : (s.frame f).content = .pendingInit :=
      (hs.contents.pending f (Contents.listed_of_loads hs.referenced (t := t)
        (by rw [hpc]; rfl))).mpr ⟨t, by rw [hpc]; rfl⟩
    refine ⟨fun g hg hc => ?_, fun g hg hc => ?_, fun u r' g hu => ?_, fun u r' g rc' hu => ?_,
      fun g hg hz => ?_⟩
    · have hvalid : (s.frame g).content.IsValid := hc
      have hne : g ≠ f := by
        rintro rfl
        rw [hpending] at hvalid
        rcases hvalid with hvalid | hvalid <;> cases hvalid
      simpa [hne] using h.valid g hg hvalid
    · have hfailed : (s.frame g).content = .failedInit := hc
      have hne : g ≠ f := by
        rintro rfl
        rw [hpending] at hfailed
        cases hfailed
      simpa [Failed, hne] using h.failed g hg hfailed
    · rcases eq_or_ne u t with rfl | hne
      · simp [State.goto] at hu
      · exact h.pagein u r' g (by simpa [State.goto, hne] using hu)
    · rcases eq_or_ne u t with rfl | hne
      · simp only [State.goto, Function.update_self, Pc.pagedIn.injEq] at hu
        obtain ⟨rfl, rfl, rfl⟩ := hu
        exact ⟨h.pagein u r f hpc, by simp⟩
      · have hold : s.pc u = .pagedIn r' g rc' := by simpa [State.goto, hne] using hu
        -- a frame has one loader, so another thread has returned from `read_page` for another frame
        have hgf : g ≠ f := by
          rintro rfl
          exact hne (hs.contents.loader u t g (by rw [hold]; rfl) (by rw [hpc]; rfl))
        simpa [State.goto, hgf] using h.pagedIn u r' g rc' hold
    · rcases eq_or_ne g f with rfl | hne
      · have hz : rc = 0 := by simpa using hz
        simp [State.goto, hz, h.pagein t r g hpc]
      · have hz : s.pageinRc g = some 0 := by simpa [hne] using hz
        simpa [State.goto, hne] using h.filled g hg hz
  | @loaded t r f hlock hpc =>
    have hinit := h.initialised hpc (.inl ⟨rfl, rfl⟩)
    exact hinit.transfer (fun _ _ => rfl) (fun _ => id) (loads_goto (by simp [Pc.Loads])) rfl rfl
      rfl
  | @loadFailed t r f rc hlock hpc hrc hpos =>
    refine (h.initialised hpc (.inr ⟨hrc, rfl⟩)).returns (fun g _ => released_content g)
      (fun g hg => released_pagelist hg) released_pc ?_
    obtain ⟨_, _, heq⟩ := released_eq (s := s.initialised f .failedInit) (f := f)
    rw [heq]
    exact ⟨rfl, rfl, rfl⟩
  -- `vm_unlock_page` counts a reference down and stores no content
  | @unlock t g hlock hg hpos =>
    refine h.transfer (fun f _ => ?_) (fun _ => id) (fun _ _ _ => rfl) rfl rfl rfl
    rcases eq_or_ne f g.frame with rfl | hne
    · simp [State.dereferenced, setFrame, frame]
    · simp [State.dereferenced, setFrame, frame, hne]
  | @otherAlloc st rc f rest hfree =>
    obtain ⟨hlist, -, -⟩ := hs.referenced.not_listed hfree
    refine h.transfer (fun g hg => ?_) (fun _ => id) (fun _ _ _ => rfl) rfl rfl rfl
    have hne : g ≠ f := fun heq => hlist (heq ▸ hg)
    simp [frame, hne]
  | @otherStore f rc c hf =>
    refine h.transfer (fun g hg => ?_) (fun _ => id) (fun _ _ _ => rfl) rfl rfl rfl
    -- the rest of the kernel writes the frames that it has taken off the free list
    have hne : g ≠ f := fun heq => (hs.referenced.not_free hg).2 (heq ▸ hf)
    simp [setFrame, frame, hne]
  | @otherFree f hf =>
    refine h.transfer (fun g hg => ?_) (fun _ => id) (fun _ _ _ => rfl) rfl rfl rfl
    have hne : g ≠ f := fun heq => (hs.referenced.not_free hg).2 (heq ▸ hf)
    simp [FramePool.freed, frame, hne]

end Recorded

/-! ## The invariants on a run -/

section Reachable

variable {s₀ s s' : State T F} {e : Event T F}

theorem Initial.recorded (h : s₀.Initial) : s₀.Recorded := by
  refine ⟨fun f hf => ?_, fun f hf => ?_, fun t r f ht => ?_, fun t r f rc ht => ?_,
    fun f hf => ?_⟩
  · simp [h.pagelist] at hf
  · simp [h.pagelist] at hf
  · simp [h.pc] at ht
  · simp [h.pc] at ht
  · simp [h.pagelist] at hf

variable [DecidableEq F] [Fintype T]

theorem Initial.sound (h : s₀.Initial) : s₀.Sound := by
  have hzero : ∀ f, s₀.references none f = 0 := by
    intro f
    simp [references, users, locks, h.pc, h.granted, Pc.refs, Pc.Loads, Pc.Awaits]
  refine ⟨⟨fun f hf => ?_, fun f hf => ?_, ?_⟩, ⟨fun f hf => ?_, fun t u f ht => ?_,
    fun g hg => ?_, fun f hf => ?_, fun t ht => ?_⟩, fun t => ?_⟩
  · simp [h.pagelist] at hf
  · simp [hzero] at hf
  · simpa [h.pagelist] using h.nodup
  · simp [h.pagelist] at hf
  · simp [h.pc, Pc.Loads] at ht
  · simp [h.granted] at hg
  · simp [h.pagelist] at hf
  · simp [h.cond] at ht
  · simp [h.lock, h.pc]

variable [DecidableEq T]

/-- In a sound state a step is one of the transitions. -/
theorem Sound.transition_of_step (h : s.Sound) (hs : Step s e s') : s.Transition e s' := by
  obtain ⟨s'', hexec, ht⟩ := exec_ok h.asserts hs.1
  obtain rfl : s' = s'' := Except.ok.inj (hs.2.symm.trans hexec)
  exact ht

theorem reachable_sound_recorded (h₀ : s₀.Initial) (h : Reachable Step s₀ s) :
    s.Sound ∧ s.Recorded := by
  refine h.invariant (I := fun s => s.Sound ∧ s.Recorded) ⟨h₀.sound, h₀.recorded⟩ ?_
  rintro s e s' ⟨hs, hr⟩ hstep
  have ht := hs.transition_of_step hstep
  exact ⟨hs.transition ht, hr.transition hs ht⟩

end Reachable

/-! ## The result -/

/-- The reference counts of the cache are right, and a frame is freed when it has failed and is no
longer used. -/
structure RefcountsRight [DecidableEq T] [DecidableEq F] [Fintype T] (s : State T F) : Prop where
  /-- A frame of the cache has the references that threads have on it. -/
  count : s.lock = none → ∀ f ∈ s.pagelist, (s.frame f).refcount = s.users f + s.locks f
  /-- The counts are integers here. They are those of a C `int` while the threads and the granted
  locks come to less than 2^31 together. -/
  bounded : s.lock = none → ∀ f ∈ s.pagelist,
    (s.frame f).refcount ≤ Fintype.card T + s.granted.length
  /-- A frame that a thread loads, waits for or has locked is on the page list. -/
  listed : ∀ f, 0 < s.users f + s.locks f → f ∈ s.pagelist
  /-- No frame is on the page list and free, or on one of the lists twice. -/
  nodup : (s.pagelist ++ s.pool.freelist).Nodup
  /-- A frame leaves the page list when its page-in has failed and nobody refers to it any more. -/
  leaves : ∀ e s', Step s e s' → ∀ f ∈ s.pagelist,
    (f ∉ s'.pagelist ↔ s.Failed f ∧ s'.users f + s'.locks f = 0)
  /-- It goes to the free list, which takes frames from nowhere else in the cache. -/
  freed : ∀ e s', Step s e s' → ∀ f, f ∉ s.pool.freelist → f ∉ s.others →
    (f ∈ s'.pool.freelist ↔ f ∈ s.pagelist ∧ f ∉ s'.pagelist)
  /-- No assertion fails. -/
  asserts : ∀ e, s.Enabled e → ∃ s', s.exec e = .ok s'

section Result

variable {s₀ s s' : State T F} {e : Event T F} {f : F}

variable [DecidableEq F]

/-- The release of a reference leaves the lists alone, or it moves the frame from the one to the
other. -/
theorem released_lists :
    (s.released f).pagelist = s.pagelist ∧ (s.released f).pool.freelist = s.pool.freelist ∨
      (s.frame f).content = .failedInit ∧ (s.released f).pagelist = s.pagelist.erase f ∧
        (s.released f).pool.freelist = s.pool.freelist ++ [f] := by
  unfold released
  split
  next hlast =>
    refine .inr ⟨?_, rfl, rfl⟩
    simpa [State.dereferenced, setFrame, frame] using hlast.2
  next => exact .inl ⟨rfl, rfl⟩

variable [Fintype T]

theorem references_none : s.references none f = s.users f + s.locks f := by
  simp [references]

/-- A frame on the page list that has failed is referred to. -/
theorem Sound.references_of_failed (h : s.Sound) (hr : s.Recorded) (hf : f ∈ s.pagelist)
    (hfailed : s.Failed f) : 0 < s.references none f := by
  obtain ⟨rc, hne, hrc⟩ := hfailed
  cases hc : (s.frame f).content with
  -- the thread that loads the frame is a reference to it
  | pendingInit =>
    obtain ⟨t, ht⟩ := (h.contents.pending f hf).mp hc
    refine lt_of_lt_of_le ?_ (refs_le_references (t := t))
    rw [Contents.loads_refs ht]
    exact Nat.one_pos
  | failedInit => exact h.contents.failed f hf hc
  -- the page-in of a valid frame has returned 0
  | clean | dirty =>
    have hzero := hr.valid f hf (by simp [hc, PageContent.IsValid])
    rw [hrc] at hzero
    exact absurd (Option.some.inj hzero) hne

variable [DecidableEq T]

/-- A step moves no frame from the page list to the free list, or it moves one that has failed. -/
theorem Transition.lists (h : s.Transition e s') (hs : s.Sound) (hr : s.Recorded) :
    (∀ f ∈ s.pagelist, f ∈ s'.pagelist) ∧
        (∀ f ∈ s'.pool.freelist, f ∈ s.pool.freelist ∨ f ∈ s.others) ∨
      ∃ f ∈ s.pagelist, s.Failed f ∧ s'.pagelist = s.pagelist.erase f ∧
        s'.pool.freelist = s.pool.freelist ++ [f] := by
  cases h with
  | @failed t r f s₁ hlock hs₁ hc hpos =>
    have hf : f ∈ s.pagelist := (hs.listed_of_comes hs₁)
    obtain ⟨pool, rfl, hfree, hsame⟩ := hs₁.eq
    -- `rc = frame->errc`: either others still wait for the frame, or this was the last one
    rcases released_lists (s := ({ s with pool } : State T F)) (f := f) with ⟨hl, hfl⟩ | ⟨-, hl, hfl⟩
    · exact .inl ⟨fun g hg => (congrArg (g ∈ ·) hl).mpr hg,
        fun g hg => .inl ((congrArg (g ∈ ·) (hfl.trans hfree)).mp hg)⟩
    · rw [frame, (hsame f).1] at hc
      exact .inr ⟨f, hf, hr.failed f hf hc, hl, hfl.trans (congrArg (· ++ [f]) hfree)⟩
  | @loadFailed t r f rc hlock hpc hrc hpos =>
    have hf : f ∈ s.pagelist := Contents.listed_of_loads hs.referenced (t := t) (by rw [hpc]; rfl)
    -- the loader gives its own reference up, and the frame with it if nobody has come to wait
    rcases released_lists (s := s.initialised f .failedInit) (f := f) with ⟨hl, hfl⟩ | ⟨-, hl, hfl⟩
    · exact .inl ⟨fun g hg => (congrArg (g ∈ ·) hl).mpr hg,
        fun g hg => .inl ((congrArg (g ∈ ·) hfl).mp hg)⟩
    · exact .inr ⟨f, hf, ⟨rc, hrc, (hr.pagedIn t r f rc hpc).2⟩, hl, hfl⟩
  | wait hlock hs₁ hc | granted hlock hs₁ hc =>
    obtain ⟨pool, rfl, hfree, -⟩ := hs₁.eq
    exact .inl ⟨fun _ => id, fun g hg => .inl (hfree ▸ hg)⟩
  | @alloc t r f rest hlock hpc hfree =>
    refine .inl ⟨fun g hg => List.mem_append_left _ hg, fun g hg => .inl ?_⟩
    rw [hfree]
    exact List.mem_cons_of_mem _ hg
  | @otherAlloc st rc f rest hfree =>
    refine .inl ⟨fun g hg => hg, fun g hg => .inl ?_⟩
    rw [hfree]
    exact List.mem_cons_of_mem _ hg
  | @otherFree f hf =>
    refine .inl ⟨fun g hg => hg, fun g hg => ?_⟩
    rcases List.mem_append.mp hg with hg | hg
    · exact .inl hg
    · obtain rfl := List.mem_singleton.mp hg
      exact .inr hf
  | call | miss | readPage | loaded | unlock | otherStore =>
    exact .inl ⟨fun _ => id, fun _ hg => .inl hg⟩

/-- The outcome of the page-in of a frame on the page list is forgotten at no step. -/
theorem Transition.pageinRc (h : s.Transition e s') (hs : s.Sound) (hf : f ∈ s.pagelist) :
    s'.pageinRc f = s.pageinRc f ∨ ∃ t, (s'.pc t).Loads f := by
  cases h with
  | @readPage t r g rc hpc =>
    rcases eq_or_ne f g with rfl | hne
    · exact .inr ⟨t, by simp [State.goto, Pc.Loads]⟩
    · exact .inl (Function.update_of_ne hne _ _)
  | @alloc t r g rest hlock hpc hfree =>
    obtain ⟨hlist, -, -⟩ := hs.referenced.not_listed hfree
    have hne : f ≠ g := fun heq => hlist (heq ▸ hf)
    exact .inl (Function.update_of_ne hne _ _)
  | wait _ hs₁ _ | granted _ hs₁ _ =>
    obtain ⟨pool, rfl, -, -⟩ := hs₁.eq
    exact .inl rfl
  | @failed t r g s₁ hlock hs₁ hc hpos =>
    obtain ⟨pool, rfl, -, -⟩ := hs₁.eq
    obtain ⟨_, _, heq⟩ := released_eq (s := ({ s with pool } : State T F)) (f := g)
    rw [heq]
    exact .inl rfl
  | @loadFailed t r g rc hlock hpc hrc hpos =>
    obtain ⟨_, _, heq⟩ := released_eq (s := s.initialised g .failedInit) (f := g)
    rw [heq]
    exact .inl rfl
  | call | miss | loaded | unlock | otherAlloc | otherStore | otherFree => exact .inl rfl

/-- A frame leaves the page list when its page-in has failed and nobody refers to it any more. -/
theorem Transition.leaves_iff (h : s.Transition e s') (hs : s.Sound) (hr : s.Recorded)
    (hf : f ∈ s.pagelist) :
    f ∉ s'.pagelist ↔ s.Failed f ∧ s'.users f + s'.locks f = 0 := by
  have hs' := hs.transition h
  have hr' := hr.transition hs h
  -- the invariants hold after the step as well: a failed frame that stays is still referred to
  have hstays : f ∈ s'.pagelist → s.Failed f → 0 < s'.references none f := by
    rintro hf' ⟨rc, hne, hrc⟩
    rcases h.pageinRc hs hf with hsame | ⟨t, ht⟩
    · exact hs'.references_of_failed hr' hf' ⟨rc, hne, hsame.trans hrc⟩
    · refine lt_of_lt_of_le ?_ (refs_le_references (t := t))
      rw [Contents.loads_refs ht]
      exact Nat.one_pos
  rw [← references_none]
  constructor
  · intro hout
    refine ⟨?_, hs'.referenced.references_eq_zero hout⟩
    -- the one step that takes a frame off the list takes a failed one
    rcases h.lists hs hr with ⟨hkeep, -⟩ | ⟨g, -, hfailed, hlist, -⟩
    · exact absurd (hkeep f hf) hout
    · rw [hlist, hs.referenced.pagelist_nodup.mem_erase_iff] at hout
      obtain rfl : f = g := by
        by_contra hne
        exact hout ⟨hne, hf⟩
      exact hfailed
  · rintro ⟨hfailed, hzero⟩ hf'
    have hpos := hstays hf' hfailed
    omega

/-- In every reachable state the reference counts are right. -/
theorem refcounts_of_reachable (h₀ : s₀.Initial) (h : Reachable Step s₀ s) :
    RefcountsRight s := by
  obtain ⟨hs, hr⟩ := reachable_sound_recorded h₀ h
  have hcount : ∀ f ∈ s.pagelist, (s.frame f).refcount = s.users f + s.locks f := by
    intro f hf
    rw [hs.referenced.count f hf, references_none]
    push_cast
    rfl
  refine ⟨fun _ => hcount, fun _ f hf => ?_, fun f hf => ?_, ?_, fun e s' hstep f hf => ?_,
    fun e s' hstep f hfree hothers => ?_, fun e he => ?_⟩
  · have husers := users_le_card (s := s) (f := f)
    have hlocks : s.locks f ≤ s.granted.length := List.countP_le_length
    rw [hcount f hf]
    omega
  · exact hs.referenced.listed f (by rwa [references_none])
  · exact (List.nodup_append.mp hs.referenced.nodup).1
  · exact (hs.transition_of_step hstep).leaves_iff hs hr hf
  · have ht := hs.transition_of_step hstep
    rcases ht.lists hs hr with ⟨hkeep, hfrom⟩ | ⟨g, hg, -, hlist, hfreelist⟩
    · refine iff_of_false (fun hin => ?_) fun hleft => hleft.2 (hkeep f hleft.1)
      rcases hfrom f hin with hin | hin
      · exact hfree hin
      · exact hothers hin
    · rw [hfreelist, hlist, List.mem_append, List.mem_singleton,
        hs.referenced.pagelist_nodup.mem_erase_iff]
      refine ⟨fun hin => ?_, fun hleft => .inr ?_⟩
      · obtain rfl := hin.resolve_left hfree
        exact ⟨hg, fun hin => hin.1 rfl⟩
      · by_contra hne
        exact hleft.2 ⟨hne, hleft.1⟩
  · obtain ⟨s', hexec, -⟩ := exec_ok hs.asserts he
    exact ⟨s', hexec⟩

end Result

/-- One thread finds the page that another one fails to load, and gives the last reference up. -/
theorem refcounts_of_reachable_failedPage :
    RefcountsRight (after Enabled exec (fresh [0, 1] : State (Fin 2) (Fin 2)) failedPage) ∧
      (after Enabled exec (fresh [0, 1] : State (Fin 2) (Fin 2)) failedPage).pagelist = [] := by
  have hrun : (runs Enabled exec (fresh [0, 1] : State (Fin 2) (Fin 2)) failedPage).isSome := by
    decide
  exact ⟨refcounts_of_reachable (fresh_initial (by decide)) (reachable_after hrun), by decide⟩

end State

end GeekOS.Vm
