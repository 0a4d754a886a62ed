import GeekOS.Vm.Transitions

/-!
# References on frames

A frame on the page list has one reference for each thread that is loading it or waiting for it
and one for each lock granted on it. A section may have a reference of its own on the frame it is
about, which the invariants name as their parameter `x`.

* `Referenced`: the reference counts, and where frames are;
* `Referenced.released`, `Referenced.allocated`, `Referenced.grants`: what keeps it.
-/

namespace GeekOS.Vm

open Result Threads TransitionSystem

variable {T F : Type} [DecidableEq F]

namespace State

/-- The threads that are loading the frame or waiting for it. -/
def users [Fintype T] (s : State T F) (f : F) : ℕ := ∑ t, (s.pc t).refs f

/-- The locks on the frame that are granted and not yet released. -/
def locks (s : State T F) (f : F) : ℕ := s.granted.countP fun g => g.frame = f

/-- The references on the frame, with the one that a section has itself if the frame is `x`. -/
def references [Fintype T] (s : State T F) (x : Option F) (f : F) : ℕ :=
  s.users f + s.locks f + if x = some f then 1 else 0

/-! ## What is left alone by the release of a frame -/

section Released

variable {s : State T F} {f : F}

/-- The release of a reference changes the frames and the page list only. -/
theorem released_eq : ∃ pool pagelist,
    s.released f = { s with pool, pagelist } := by
  unfold released
  split
  · exact ⟨_, _, rfl⟩
  · exact ⟨_, _, rfl⟩

@[simp]
theorem released_pc : (s.released f).pc = s.pc := by
  obtain ⟨pool, pagelist, h⟩ := released_eq (s := s) (f := f)
  rw [h]

@[simp]
theorem released_cond : (s.released f).cond = s.cond := by
  obtain ⟨pool, pagelist, h⟩ := released_eq (s := s) (f := f)
  rw [h]

@[simp]
theorem released_granted : (s.released f).granted = s.granted := by
  obtain ⟨pool, pagelist, h⟩ := released_eq (s := s) (f := f)
  rw [h]

@[simp]
theorem released_returned : (s.released f).returned = s.returned := by
  obtain ⟨pool, pagelist, h⟩ := released_eq (s := s) (f := f)
  rw [h]

theorem released_references [Fintype T] {x : Option F} {g : F} :
    (s.released f).references x g = s.references x g := by
  obtain ⟨pool, pagelist, h⟩ := released_eq (s := s) (f := f)
  rw [h]
  rfl

theorem released_content (g : F) :
    ((s.released f).frame g).content = (s.frame g).content := by
  unfold released
  rcases eq_or_ne g f with rfl | hne
  · split <;> simp [freed, FramePool.freed, dereferenced, setFrame, frame]
  · split <;> simp [freed, FramePool.freed, dereferenced, setFrame, frame, hne]

theorem released_sublist : (s.released f).pagelist.Sublist s.pagelist := by
  unfold released
  split
  · exact List.erase_sublist
  · exact .refl _

theorem released_pagelist {g : F} (h : g ∈ (s.released f).pagelist) : g ∈ s.pagelist :=
  released_sublist.subset h

/-- A frame that could not be loaded does not stay without references. -/
theorem released_kept (hnodup : s.pagelist.Nodup) (h : f ∈ (s.released f).pagelist)
    (hzero : ((s.released f).frame f).refcount = 0) :
    ((s.released f).frame f).content ≠ .failedInit := by
  intro hc
  unfold released at h hzero hc
  split at h
  next hlast => exact absurd h (hnodup.mem_erase_iff.not.mpr (by simp))
  next hlast =>
    rw [if_neg hlast] at hzero hc
    exact hlast ⟨hzero, hc⟩

end Released

/-! ## References -/

variable [Fintype T]

section References

variable {s : State T F} {x : Option F} {t : T} {f : F}

theorem refs_le_references : (s.pc t).refs f ≤ s.references x f := by
  have : (s.pc t).refs f ≤ s.users f := le_sum (Pc.refs f) s.pc t
  unfold references
  omega

/-- A thread loads or awaits one frame at a time. -/
theorem users_le_card : s.users f ≤ Fintype.card T := by
  have hone : ∀ t ∈ Finset.univ, (s.pc t).refs f ≤ 1 := by
    intro t _
    unfold Pc.refs
    split <;> omega
  exact (Finset.sum_le_card_nsmul _ _ 1 hone).trans_eq (by simp)

theorem references_pos_of_granted {g : Grant T F} (h : g ∈ s.granted) :
    0 < s.references x g.frame := by
  have : 0 < s.locks g.frame := List.countP_pos_iff.mpr ⟨g, h, by simp⟩
  unfold references
  omega

theorem references_some : s.references (some f) f = s.references none f + 1 := by
  simp [references]

theorem references_some_of_ne {g : F} (h : g ≠ f) :
    s.references (some f) g = s.references none g := by
  simp [references, Ne.symm h]

variable [DecidableEq T]

/-- A thread that moves takes its references along. -/
theorem references_goto (p : Pc F) :
    (s.goto t p).references x f + (s.pc t).refs f = s.references x f + p.refs f := by
  -- the locks are those of the grants, which no thread takes along
  have hsum := sum_update (Pc.refs f) s.pc t p
  have hlocks : (s.goto t p).locks f = s.locks f := rfl
  have husers : (s.goto t p).users f = ∑ u, (Function.update s.pc t p u).refs f := rfl
  unfold references
  rw [husers, hlocks]
  unfold users
  omega

/-- The reference of a thread on a frame becomes one of its section. -/
theorem references_leave {g : F} (h : (s.pc t).Loads f ∨ (s.pc t).Awaits f) :
    (s.goto t .idle).references (some f) g = s.references none g := by
  have hsum := references_goto (s := s) (x := none) (t := t) (f := g) .idle
  -- an idle thread has no references, so the sum loses what the section gains
  have hidle : Pc.refs g (.idle : Pc F) = 0 := rfl
  rw [Pc.refs_eq h, hidle] at hsum
  rcases eq_or_ne g f with rfl | hne
  · rw [references_some]
    simpa using hsum
  · rw [references_some_of_ne hne]
    simpa [Ne.symm hne] using hsum

/-- The reference of a section on a frame becomes one of its thread. -/
theorem references_enter {g : F} {p : Pc F} (h : p.Loads f ∨ p.Awaits f) :
    (s.goto t p).references none g = (s.goto t .idle).references (some f) g := by
  -- entering is leaving in reverse
  have hsum := references_goto (s := s.goto t p) (x := none) (t := t) (f := g) .idle
  have hpc : (s.goto t p).pc t = p := Function.update_self ..
  have hgoto : (s.goto t p).goto t .idle = s.goto t .idle := by
    simp [State.goto]
  have hidle : Pc.refs g (.idle : Pc F) = 0 := rfl
  rw [hpc, hgoto, Pc.refs_eq h, hidle] at hsum
  rcases eq_or_ne g f with rfl | hne
  · rw [references_some]
    simpa using hsum.symm
  · rw [references_some_of_ne hne]
    simpa [Ne.symm hne] using hsum.symm

end References

/-! ## The reference counts -/

/-- The reference counts are right, and each frame is in one place. The section that is being
carried out has a reference of its own if there is an `x`. -/
structure Referenced (x : Option F) (s : State T F) : Prop where
  count : ∀ f ∈ s.pagelist, (s.frame f).refcount = s.references x f
  listed : ∀ f, 0 < s.references x f → f ∈ s.pagelist
  nodup : (s.pagelist ++ s.pool.freelist ++ s.others).Nodup

namespace Referenced

variable {s s' : State T F} {x x' : Option F} {t : T} {f : F} {r : Request}

theorem pagelist_nodup (h : Referenced x s) : s.pagelist.Nodup :=
  (List.nodup_append.mp (List.nodup_append.mp h.nodup).1).1

/-- A frame on the page list is neither free nor in use elsewhere. -/
theorem not_free (h : Referenced x s) (hf : f ∈ s.pagelist) :
    f ∉ s.pool.freelist ∧ f ∉ s.others := by
  have hnodup := h.nodup
  rw [List.append_assoc, List.nodup_append] at hnodup
  have hne := hnodup.2.2 f hf f
  simpa using hne

theorem references_eq_zero (h : Referenced x s) (hf : f ∉ s.pagelist) :
    s.references x f = 0 := by
  by_contra hne
  exact hf (h.listed f (Nat.pos_of_ne_zero hne))

/-- References change hands. -/
theorem transfer (h : Referenced x s) (hpool : s'.pool = s.pool) (hlist : s'.pagelist = s.pagelist)
    (hothers : s'.others = s.others) (ht : ∀ f, s'.references x' f = s.references x f) :
    Referenced x' s' where
  count f hf := by
    rw [hlist] at hf
    have := h.count f hf
    unfold frame at this ⊢
    rw [ht, hpool, this]
  listed f hf := by
    rw [ht] at hf
    rw [hlist]
    exact h.listed f hf
  nodup := by
    rw [hlist, hpool, hothers]
    exact h.nodup

/-- Where the fields of the frames are the same, so are their references. -/
theorem count_eq (h : Referenced x s) (h' : Referenced x' s') (hpool : s'.pool = s.pool)
    (hlist : s'.pagelist = s.pagelist) (hf : f ∈ s.pagelist) :
    s.references x f = s'.references x' f := by
  have hcount := h.count f hf
  have hcount' := h'.count f (hlist ▸ hf)
  unfold frame at hcount hcount'
  rw [hpool] at hcount'
  omega

/-- The section takes a reference. -/
theorem referenced (h : Referenced none s) (hf : f ∈ s.pagelist) :
    Referenced (some f) (s.referenced f) where
  count g hg := by
    have hcount := h.count g hg
    rcases eq_or_ne g f with rfl | hne
    · have : (s.referenced g).references (some g) g = s.references none g + 1 := references_some
      rw [this]
      simp [State.referenced, setFrame, frame] at hcount ⊢
      exact hcount
    · have : (s.referenced f).references (some f) g = s.references none g :=
        references_some_of_ne hne
      rw [this]
      simpa [State.referenced, setFrame, frame, hne] using hcount
  listed g hg := by
    rcases eq_or_ne g f with rfl | hne
    · exact hf
    · have : (s.referenced f).references (some f) g = s.references none g :=
        references_some_of_ne hne
      exact h.listed g (this ▸ hg)
  nodup := h.nodup

/-- The section drops its reference, on a frame that others still have references on or that is
kept without. -/
theorem dereferenced (h : Referenced (some f) s) : Referenced none (s.dereferenced f) where
  count g hg := by
    have hcount := h.count g hg
    rcases eq_or_ne g f with rfl | hne
    · have href : (s.dereferenced g).references none g = s.references none g := rfl
      rw [references_some] at hcount
      rw [href]
      simp [State.dereferenced, setFrame, frame] at hcount ⊢
      omega
    · have : (s.dereferenced f).references none g = s.references (some f) g :=
        (references_some_of_ne hne).symm
      rw [this]
      simpa [State.dereferenced, setFrame, frame, hne] using hcount
  listed g hg := by
    refine h.listed g (hg.trans_le ?_)
    rcases eq_or_ne g f with rfl | hne
    · rw [references_some]
      exact Nat.le_succ _
    · rw [references_some_of_ne hne]
      exact le_rfl
  nodup := h.nodup

/-- A frame without references is freed. -/
theorem freed (h : Referenced none s) (hf : f ∈ s.pagelist) (hzero : s.references none f = 0) :
    Referenced none (s.freed f) where
  count g hg := by
    have hne : g ≠ f := (h.pagelist_nodup.mem_erase_iff.mp hg).1
    have hcount := h.count g (List.mem_of_mem_erase hg)
    have : (s.freed f).references none g = s.references none g := rfl
    rw [this]
    simpa [State.freed, FramePool.freed, frame, hne] using hcount
  listed g hg := by
    have hg : 0 < s.references none g := hg
    have hne : g ≠ f := by
      rintro rfl
      omega
    exact h.pagelist_nodup.mem_erase_iff.mpr ⟨hne, h.listed g hg⟩
  nodup := by
    -- the frame moves from the page list to the end of the free list
    have hperm : (s.pagelist.erase f ++ (s.pool.freelist ++ [f])).Perm
        (s.pagelist ++ s.pool.freelist) := by
      rw [← List.append_assoc]
      exact (List.perm_append_singleton f _).trans ((List.perm_cons_erase hf).symm.append_right _)
    exact (hperm.append_right s.others).nodup_iff.mpr h.nodup

/-- The section gives its reference up with `vm_release_frame_ref`. -/
theorem released (h : Referenced (some f) s) : Referenced none (s.released f) := by
  have hf : f ∈ s.pagelist := h.listed f (by rw [references_some]; omega)
  have hd := h.dereferenced
  unfold State.released
  split
  next hlast =>
    -- the count is zero, so nobody has a reference
    have hcount := hd.count f hf
    rw [hlast.1] at hcount
    exact hd.freed hf (by omega)
  next => exact hd

/-- A frame without references is taken off the free list. -/
theorem not_listed {rest : List F} (h : Referenced x s) (hfree : s.pool.freelist = f :: rest) :
    f ∉ s.pagelist ∧ f ∉ rest ∧ f ∉ s.others := by
  have hnodup := h.nodup
  rw [hfree] at hnodup
  grind

/-- Fields of the frames other than the reference counts of the page list do not matter. -/
theorem store (h : Referenced x s) {frame : Frame}
    (hf : f ∈ s.pagelist → frame.refcount = (s.frame f).refcount) :
    Referenced x (s.setFrame f frame) where
  count g hg := by
    have hcount := h.count g hg
    have href : (s.setFrame f frame).references x g = s.references x g := rfl
    rw [href, ← hcount]
    rcases eq_or_ne g f with rfl | hne
    · simpa [setFrame, State.frame] using hf hg
    · simp [setFrame, State.frame, hne]
  listed := h.listed
  nodup := h.nodup

variable [DecidableEq T]

/-- The frame that a thread allocates is loaded by this thread alone. -/
theorem allocated {rest : List F} (h : Referenced none s) (hpc : s.pc t = .allocFrame r)
    (hfree : s.pool.freelist = f :: rest) : Referenced none (s.allocated t r f rest) := by
  -- the frame comes from the free list, so that nobody has a reference on it yet
  obtain ⟨hlist, hrest, hothers⟩ := h.not_listed hfree
  have hgoto : ∀ g, (s.allocated t r f rest).references none g =
      s.references none g + if f = g then 1 else 0 := by
    intro g
    have hsum := references_goto (s := s) (x := none) (t := t) (f := g) (.pagein r f)
    have href : (s.goto t (.pagein r f)).references none g =
        s.references none g + if f = g then 1 else 0 := by
      simpa [hpc, Pc.refs, Pc.Loads, Pc.Awaits] using hsum
    exact href
  refine ⟨fun g hg => ?_, fun g hg => ?_, ?_⟩
  · rcases eq_or_ne g f with rfl | hne
    · rw [hgoto, h.references_eq_zero hlist]
      simp [State.allocated, frame]
    · have hg : g ∈ s.pagelist := by simpa [State.allocated, hne] using hg
      have hcount := h.count g hg
      rw [hgoto, if_neg hne.symm]
      simpa [State.allocated, frame, hne] using hcount
  · rw [hgoto] at hg
    have hsplit : g ∈ s.pagelist ∨ g = f := by
      rcases eq_or_ne f g with rfl | hne
      · exact .inr rfl
      · exact .inl (h.listed g (by simpa [hne] using hg))
    simpa [State.allocated] using hsplit
  · have hnodup := h.nodup
    rw [hfree] at hnodup
    -- the frame moves from the free list to the page list
    have hperm : (s.pagelist ++ [f] ++ rest ++ s.others).Perm
        (s.pagelist ++ f :: rest ++ s.others) := by simp
    exact hperm.nodup_iff.mpr hnodup

/-- The thread leaves a section with a lock on the frame. -/
theorem grants (h : Referenced (some f) (s.goto t .idle)) {pageinRc : Option ℤ}
    {filled : Option PageNum} {rc : ℤ} :
    Referenced none (s.returns t r f pageinRc filled rc (some f)) := by
  refine h.transfer rfl rfl rfl fun g => ?_
  have husers : (s.returns t r f pageinRc filled rc (some f)).users g = (s.goto t .idle).users g :=
    rfl
  -- the reference of the section becomes that of the lock
  have hlocks : (s.returns t r f pageinRc filled rc (some f)).locks g =
      (s.goto t .idle).locks g + if f = g then 1 else 0 := by
    simp [locks, returns, State.goto, List.countP_cons]
  unfold references
  rw [husers, hlocks]
  simp [add_assoc]

/-- The thread leaves a section without one. -/
theorem returns (h : Referenced none (s.goto t .idle)) {pageinRc : Option ℤ}
    {filled : Option PageNum} {rc : ℤ} :
    Referenced none (s.returns t r f pageinRc filled rc none) :=
  h.transfer rfl rfl rfl fun _ => rfl

end Referenced

end State

end GeekOS.Vm
