import GeekOS.Vm.References

/-!
# The contents of frames

What the content of a frame says about the threads, and the invariant of a page cache between two
sections. With `x` a frame, an invariant is that of the inside of a section which has a reference of
its own on `x`.

* `Contents`: which frames are being loaded, locked, or kept although they could not be loaded;
* `Sound`: the invariant, with one lemma for each way a section ends;
* `Transition.sound`: every step keeps it.
-/

namespace GeekOS.Vm

open Result Threads TransitionSystem

variable {T F : Type} [DecidableEq F] [Fintype T]

namespace State

/-! ## The contents of the frames -/

/-- A frame whose contents are pending is being loaded by one thread, a frame with a lock on it has
its contents, and a frame that could not be loaded is kept only while there are references. -/
structure Contents (x : Option F) (s : State T F) : Prop where
  pending : ∀ f ∈ s.pagelist, (s.frame f).content = .pendingInit ↔ ∃ t, (s.pc t).Loads f
  loader : ∀ t u f, (s.pc t).Loads f → (s.pc u).Loads f → t = u
  granted : ∀ g ∈ s.granted, (s.frame g.frame).content.IsValid
  failed : ∀ f ∈ s.pagelist, (s.frame f).content = .failedInit → 0 < s.references x f
  asleep : ∀ t ∈ s.cond, ∃ r f, s.pc t = .condWait r f ∧ (s.frame f).content = .pendingInit

namespace Contents

variable {s s' : State T F} {x x' : Option F} {t : T} {f : F} {r : Request}

theorem loads_refs {p : Pc F} (h : p.Loads f) : p.refs f = 1 := if_pos (.inl h)

theorem listed_of_loads (hr : Referenced x s) (h : (s.pc t).Loads f) : f ∈ s.pagelist := by
  refine hr.listed f (lt_of_lt_of_le ?_ (refs_le_references (t := t)))
  rw [loads_refs h]
  exact Nat.one_pos

theorem listed_of_granted (hr : Referenced x s) {g : Grant T F} (h : g ∈ s.granted) :
    g.frame ∈ s.pagelist :=
  hr.listed _ (references_pos_of_granted h)

theorem listed_of_asleep (hr : Referenced x s) (h : s.pc t = .condWait r f) :
    f ∈ s.pagelist := by
  refine hr.listed f (lt_of_lt_of_le ?_ (refs_le_references (t := t)))
  simp [h, Pc.refs, Pc.Awaits]

/-- The state changes in nothing that the contents of the listed frames depend on. -/
theorem transfer (h : Contents x s) (hr : Referenced x s)
    (hcontent : ∀ f ∈ s.pagelist, (s'.frame f).content = (s.frame f).content)
    (hlist : ∀ f ∈ s'.pagelist, f ∈ s.pagelist)
    (hloads : ∀ u f, (s'.pc u).Loads f ↔ (s.pc u).Loads f)
    (hgranted : ∀ g ∈ s'.granted, g ∈ s.granted ∨ (s'.frame g.frame).content.IsValid)
    (hfailed : ∀ f ∈ s'.pagelist, (s'.frame f).content = .failedInit → 0 < s'.references x' f)
    (hasleep : ∀ t ∈ s'.cond, t ∈ s.cond ∧ s'.pc t = s.pc t ∨
      ∃ r f, s'.pc t = .condWait r f ∧ (s'.frame f).content = .pendingInit) :
    Contents x' s' where
  pending f hf := by
    rw [hcontent f (hlist f hf), h.pending f (hlist f hf)]
    exact exists_congr fun t => (hloads t f).symm
  loader t u f ht hu := h.loader t u f ((hloads t f).mp ht) ((hloads u f).mp hu)
  granted g hg := by
    rcases hgranted g hg with hold | hnew
    · -- a frame with a lock is listed, and the contents of listed frames stay
      rw [hcontent _ (listed_of_granted hr hold)]
      exact h.granted g hold
    · exact hnew
  failed := hfailed
  asleep t ht := by
    rcases hasleep t ht with ⟨hold, hpc⟩ | hnew
    · obtain ⟨r, f, hwait, hc⟩ := h.asleep t hold
      refine ⟨r, f, hpc.trans hwait, ?_⟩
      rw [hcontent f (listed_of_asleep hr hwait)]
      exact hc
    · exact hnew

/-- The reference that the section drops is not the last one on a frame that is kept although it
could not be loaded. -/
theorem released (h : Contents (some f) s) (hr : Referenced (some f) s) :
    Contents none (s.released f) := by
  refine h.transfer hr ?_ ?_ (fun u g => by simp) (fun g hg => .inl (by simpa using hg)) ?_
    (fun u hu => .inl ⟨by simpa using hu, by simp⟩)
  · intro g _
    exact released_content g
  · intro g hg
    exact released_pagelist hg
  · intro g hg hc
    have hcount := hr.released.count g hg
    rcases eq_or_ne g f with rfl | hne
    · -- without references the frame would have been freed
      have hne : ((s.released g).frame g).refcount ≠ 0 := by
        intro hzero
        exact released_kept hr.pagelist_nodup hg hzero hc
      omega
    · rw [released_content] at hc
      -- the section had no reference on the other frames
      have hold := h.failed g (released_pagelist hg) hc
      rw [references_some_of_ne hne] at hold
      rw [released_references]
      exact hold

variable [DecidableEq T]

omit [DecidableEq F] [Fintype T] in
/-- A thread that moves and goes on loading what it was loading leaves the others alone. -/
theorem loads_goto {p : Pc F} (hp : ∀ f, p.Loads f ↔ (s.pc t).Loads f) (u : T) (g : F) :
    ((s.goto t p).pc u).Loads g ↔ (s.pc u).Loads g := by
  rcases eq_or_ne u t with rfl | hne
  · simp [State.goto, hp]
  · simp [State.goto, hne]

/-- The outcome of the page-in of a frame is stored, and its loader leaves with the reference. -/
theorem initialised (h : Contents none s) (hr : Referenced none s) (hpc : (s.pc t).Loads f)
    {content : PageContent} (hc : content ≠ .pendingInit) :
    Contents (some f) ((s.initialised f content).goto t .idle) := by
  -- the frame was being loaded by this thread alone, so no lock on it has been granted
  have hpending : (s.frame f).content = .pendingInit :=
    (h.pending f (listed_of_loads hr hpc)).mpr ⟨t, hpc⟩
  have hframe : ∀ g, g ≠ f →
      (((s.initialised f content).goto t .idle).frame g).content = (s.frame g).content := by
    intro g hne
    simp [State.initialised, State.goto, setFrame, frame, hne]
  have hself : (((s.initialised f content).goto t .idle).frame f).content = content := by
    simp [State.initialised, State.goto, setFrame, frame]
  have honly : ∀ g, (s.pc t).Loads g → g = f := fun g hg => Pc.loads_unique hg hpc
  have hloads : ∀ u g, (((s.initialised f content).goto t .idle).pc u).Loads g ↔
      u ≠ t ∧ (s.pc u).Loads g := by
    intro u g
    rcases eq_or_ne u t with rfl | hne
    · simp [State.initialised, State.goto, Pc.Loads]
    · simp [State.initialised, State.goto, setFrame, hne]
  refine ⟨fun g hg => ?_, fun u v g hu hv => ?_, fun g hg => ?_, fun g hg hfailed => ?_,
    fun u hu => by simp [State.initialised, State.goto] at hu⟩
  · simp only [hloads]
    rcases eq_or_ne g f with rfl | hne
    · -- nobody else was loading the frame
      rw [hself]
      refine ⟨fun hcon => absurd hcon hc, ?_⟩
      rintro ⟨u, hut, hu⟩
      exact absurd (h.loader u t g hu hpc) hut
    · rw [hframe g hne, h.pending g hg]
      -- the thread that stores loads no other frame
      refine exists_congr fun u => ⟨fun hu => ⟨?_, hu⟩, fun hu => hu.2⟩
      rintro rfl
      exact hne (honly g hu)
  · exact h.loader u v g ((hloads u g).mp hu).2 ((hloads v g).mp hv).2
  · have hold := h.granted g hg
    -- the contents of a granted frame are valid, those of `f` were pending
    have hne : g.frame ≠ f := by
      intro heq
      rw [heq, hpending] at hold
      rcases hold with hold | hold <;> cases hold
    rw [hframe _ hne]
    exact hold
  · rcases eq_or_ne g f with rfl | hne
    · -- the reference of the loader is one of the section now
      rw [references_some]
      exact Nat.succ_pos _
    · rw [hframe g hne] at hfailed
      have hpos := h.failed g hg hfailed
      have hsum := references_goto (s := s.initialised f content) (x := some f) (t := t) (f := g)
        .idle
      have hrefs : ((s.initialised f content).pc t).refs g = 0 := by
        have hrefs := Pc.refs_eq (.inl hpc) g
        rwa [if_neg (Ne.symm hne)] at hrefs
      have href : (s.initialised f content).references (some f) g = s.references none g :=
        references_some_of_ne hne
      rw [hrefs, href] at hsum
      have : Pc.refs g (.idle : Pc F) = 0 := rfl
      omega

end Contents

/-! ## The invariant -/

/-- The invariant of a page cache between two sections. -/
structure Sound (s : State T F) : Prop where
  referenced : Referenced none s
  contents : Contents none s
  locked : ∀ t, s.lock = some t ↔ ∃ r, s.pc t = .allocFrame r

namespace Sound

variable {s s' : State T F} {t : T} {f : F} {r : Request} {e : Event T F}

/-- A thread that has references on a frame finds them counted. -/
theorem refcount_pos (h : s.Sound) (href : 0 < s.references none f) :
    0 < (s.frame f).refcount := by
  rw [h.referenced.count f (h.referenced.listed f href)]
  exact Int.natCast_pos.mpr href

/-- No assertion fails. -/
theorem asserts (h : s.Sound) : s.Asserts where
  locked := h.locked
  loading t r f rc hpc := by
    refine h.refcount_pos (lt_of_lt_of_le ?_ (refs_le_references (t := t)))
    simp [hpc, Pc.refs, Pc.Loads]
  awaited t r f hpc := by
    refine h.refcount_pos (lt_of_lt_of_le ?_ (refs_le_references (t := t)))
    simp [hpc, Pc.refs, Pc.Awaits]
  listed f hf := by
    rw [h.referenced.count f hf]
    exact Int.natCast_nonneg _
  granted g hg := h.refcount_pos (references_pos_of_granted hg)

theorem listed_of_comes {s₁ : State T F} (h : s.Sound) (hs₁ : s.Comes t r f s₁) :
    f ∈ s.pagelist := by
  cases hs₁ with
  | hit _ hf => exact List.mem_of_find?_eq_some hf
  | woken hpc _ => exact Contents.listed_of_asleep h.referenced hpc

/-- Where no thread has the lock, none is in `mem_alloc_frame`. -/
theorem locked_of_none (h : s.Sound) (hlock : s.lock = none) (hlock' : s'.lock = none)
    (hpc : ∀ u r, s'.pc u = .allocFrame r → s.pc u = .allocFrame r) (u : T) :
    s'.lock = some u ↔ ∃ r, s'.pc u = .allocFrame r := by
  rw [hlock']
  constructor
  · intro hu
    cases hu
  · rintro ⟨r, hr⟩
    -- a thread in `mem_alloc_frame` would have the lock
    have hown := (h.locked u).mpr ⟨r, hpc u r hr⟩
    rw [hlock] at hown
    cases hown

/-- Fields that are no part of the cache change. -/
theorem others (h : s.Sound) (hpc : s'.pc = s.pc) (hgranted : s'.granted = s.granted)
    (hcond : s'.cond = s.cond) (hlock : s'.lock = s.lock) (hlist : s'.pagelist = s.pagelist)
    (hframe : ∀ f ∈ s.pagelist, s'.frame f = s.frame f)
    (hnodup : (s'.pagelist ++ s'.pool.freelist ++ s'.others).Nodup) : s'.Sound := by
  have href : ∀ g, s'.references none g = s.references none g := by
    intro g
    unfold references users locks
    rw [hpc, hgranted]
  refine ⟨⟨fun g hg => ?_, fun g hg => ?_, hnodup⟩,
    h.contents.transfer h.referenced (fun g hg => ?_) (fun g hg => hlist ▸ hg)
      (fun u g => by rw [hpc]) (fun g hg => .inl (hgranted ▸ hg)) (fun g hg hfailed => ?_)
      (fun u hu => .inl ⟨hcond ▸ hu, by rw [hpc]⟩), fun u => by rw [hlock, hpc, h.locked]⟩
  · rw [hlist] at hg
    rw [hframe g hg, href]
    exact h.referenced.count g hg
  · rw [href] at hg
    rw [hlist]
    exact h.referenced.listed g hg
  · rw [hframe g hg]
  · rw [hlist] at hg
    rw [hframe g hg] at hfailed
    rw [href]
    exact h.contents.failed g hg hfailed

variable [DecidableEq T]

/-- What a section finds when its thread has come to a frame. -/
theorem comes {s₁ : State T F} (h : s.Sound) (hs₁ : s.Comes t r f s₁) :
    Referenced (some f) (s₁.goto t .idle) ∧ Contents (some f) (s₁.goto t .idle) := by
  cases hs₁ with
  | hit hpc hf =>
    -- the thread has found the frame by its search and increments its count
    have hmem : f ∈ s.pagelist := List.mem_of_find?_eq_some hf
    have hr : Referenced (some f) (s.referenced f) := h.referenced.referenced hmem
    have href : ∀ g, ((s.referenced f).goto t .idle).references (some f) g =
        (s.referenced f).references (some f) g := by
      intro g
      have hsum := references_goto (s := s.referenced f) (x := some f) (t := t) (f := g) .idle
      have hpc' : (s.referenced f).pc t = .lockPage r := hpc
      simpa [hpc', Pc.refs, Pc.Loads, Pc.Awaits] using hsum
    have hcontent : ∀ g, (((s.referenced f).goto t .idle).frame g).content =
        (s.frame g).content := by
      intro g
      rcases eq_or_ne g f with rfl | hne
      · simp [State.goto, State.referenced, setFrame, frame]
      · simp [State.goto, State.referenced, setFrame, frame, hne]
    refine ⟨hr.transfer rfl rfl rfl href, h.contents.transfer h.referenced (fun g _ => hcontent g)
      (fun _ => id) ?_ (fun g hg => .inl hg) ?_ ?_⟩
    · exact Contents.loads_goto (s := s.referenced f)
        (by simp [State.referenced, setFrame, hpc, Pc.Loads])
    · intro g hg hfailed
      rw [hcontent] at hfailed
      have hpos := h.contents.failed g hg hfailed
      rw [href]
      have hle : s.references none g ≤ (s.referenced f).references (some f) g := by
        unfold references
        exact Nat.add_le_add_left (Nat.zero_le _) _
      omega
    · intro u hu
      -- a thread that comes from its call does not sleep
      have hne : u ≠ t := by
        rintro rfl
        obtain ⟨r', f', hwait, -⟩ := h.contents.asleep u hu
        rw [hpc] at hwait
        cases hwait
      exact .inl ⟨hu, by simp [State.goto, State.referenced, setFrame, hne]⟩
  | woken hpc hcond =>
    -- the reference that the thread has waited with becomes one of the section
    have href : ∀ g, (s.goto t .idle).references (some f) g = s.references none g :=
      fun g => references_leave (.inr (by rw [hpc]; rfl))
    refine ⟨h.referenced.transfer rfl rfl rfl href, h.contents.transfer h.referenced
      (fun g _ => rfl) (fun _ => id) (Contents.loads_goto (by simp [hpc, Pc.Loads]))
      (fun g hg => .inl hg) ?_ ?_⟩
    · intro g hg hfailed
      rw [href]
      exact h.contents.failed g hg hfailed
    · intro u hu
      have hne : u ≠ t := fun heq => hcond (heq ▸ hu)
      exact .inl ⟨hu, by simp [State.goto, hne]⟩

/-- A thread that has come to the frame goes to sleep. -/
theorem wait {s₁ : State T F} (h : s.Sound) (hlock : s.lock = none) (hs₁ : s.Comes t r f s₁)
    (hc : (s₁.frame f).content = .pendingInit) :
    Sound { s₁.goto t (.condWait r f) with lock := none, cond := s₁.cond ++ [t] } := by
  obtain ⟨hr, hcont⟩ := h.comes hs₁
  have href : ∀ g, (s₁.goto t (.condWait r f)).references none g =
      (s₁.goto t .idle).references (some f) g := fun g => references_enter (.inr rfl)
  refine ⟨hr.transfer rfl rfl rfl href, hcont.transfer hr (fun _ _ => rfl) (fun _ => id) ?_
    (fun g hg => .inl hg) ?_ ?_, ?_⟩
  · intro u g
    rcases eq_or_ne u t with rfl | hne
    · simp [State.goto, Pc.Loads]
    · simp [State.goto, hne]
  · -- a frame whose load has failed keeps its references
    intro g hg hfailed
    exact (hcont.failed g hg hfailed).trans_eq (href g).symm
  · intro u hu
    rcases eq_or_ne u t with rfl | hne
    · exact .inr ⟨r, f, by simp [State.goto], hc⟩
    · have hold : u ∈ s₁.cond := by simpa [hne] using hu
      exact .inl ⟨hold, by simp [State.goto, hne]⟩
  · refine h.locked_of_none hlock rfl fun u r' hu => ?_
    rcases eq_or_ne u t with rfl | hne
    · simp [State.goto] at hu
    · have hpc : s₁.pc u = s.pc u := by cases hs₁ <;> rfl
      rw [← hpc]
      simpa [State.goto, hne] using hu

/-- What a section finds when its thread has stored the outcome of its page-in. -/
theorem initialised {rc : ℤ} {content : PageContent} (h : s.Sound) (hpc : s.pc t = .pagedIn r f rc)
    (hc : content ≠ .pendingInit) :
    Referenced (some f) ((s.initialised f content).goto t .idle) ∧
      Contents (some f) ((s.initialised f content).goto t .idle) := by
  have hloads : (s.pc t).Loads f := by
    rw [hpc]
    rfl
  have hr : Referenced none (s.setFrame f { s.frame f with content }) :=
    h.referenced.store fun _ => rfl
  exact ⟨hr.transfer rfl rfl rfl fun g => references_leave (s := s.initialised f content)
    (.inl hloads), h.contents.initialised h.referenced hloads hc⟩

/-- A thread leaves a section without a lock on the frame. -/
theorem returns {s₁ : State T F} {rc : ℤ} {pageinRc : Option ℤ} {filled : Option PageNum}
    (h : s.Sound) (hlock : s.lock = none) (hpc : s₁.pc = s.pc)
    (hr : Referenced (some f) (s₁.goto t .idle)) (hc : Contents (some f) (s₁.goto t .idle)) :
    Sound ((s₁.released f).returns t r f pageinRc filled rc none) := by
  have hr' := hr.released
  have hc' := hc.released hr
  rw [released_goto] at hr' hc'
  refine ⟨hr'.returns, ⟨hc'.pending, hc'.loader, hc'.granted, hc'.failed, hc'.asleep⟩,
    h.locked_of_none hlock rfl fun u r' hu => ?_⟩
  rcases eq_or_ne u t with rfl | hne
  · simp [State.returns, State.goto] at hu
  · rw [← hpc]
    simpa [State.returns, State.goto, hne] using hu

/-- A thread leaves a section with a lock on the frame. -/
theorem grants {s₁ : State T F} {rc : ℤ} {pageinRc : Option ℤ} {filled : Option PageNum}
    (h : s.Sound) (hlock : s.lock = none) (hpc : s₁.pc = s.pc)
    (hr : Referenced (some f) (s₁.goto t .idle)) (hc : Contents (some f) (s₁.goto t .idle))
    (hvalid : (s₁.frame f).content.IsValid) :
    Sound (s₁.returns t r f pageinRc filled rc (some f)) := by
  have hr' : Referenced none (s₁.returns t r f pageinRc filled rc (some f)) := hr.grants
  refine ⟨hr', hc.transfer hr (fun _ _ => rfl) (fun _ => id) (fun _ _ => Iff.rfl) ?_ ?_
    (fun u hu => .inl ⟨hu, rfl⟩), h.locked_of_none hlock rfl fun u r' hu => ?_⟩
  · intro g hg
    have hsplit : g = { thread := t, pageNum := r.pageNum, frame := f } ∨ g ∈ s₁.granted := by
      simpa [State.returns] using hg
    rcases hsplit with rfl | hold
    · exact .inr hvalid
    · exact .inl hold
  · intro g hg hfailed
    have hpos := hc.failed g hg hfailed
    rw [← hr.count_eq hr' rfl rfl hg]
    exact hpos
  · rcases eq_or_ne u t with rfl | hne
    · simp [State.returns, State.goto] at hu
    · rw [← hpc]
      simpa [State.returns, State.goto, hne] using hu

/-- The page is not on the page list. -/
theorem miss (h : s.Sound) (hlock : s.lock = none) (hpc : s.pc t = .lockPage r) :
    Sound { s.goto t (.allocFrame r) with lock := some t } := by
  have href : ∀ g, (s.goto t (.allocFrame r)).references none g = s.references none g := by
    intro g
    have hsum := references_goto (s := s) (x := none) (t := t) (f := g) (.allocFrame r)
    simpa [hpc, Pc.refs, Pc.Loads, Pc.Awaits] using hsum
  refine ⟨h.referenced.transfer rfl rfl rfl href, h.contents.transfer h.referenced
    (fun _ _ => rfl) (fun _ => id) (Contents.loads_goto (by simp [hpc, Pc.Loads]))
    (fun g hg => .inl hg) ?_ ?_, ?_⟩
  · intro g hg hfailed
    exact (h.contents.failed g hg hfailed).trans_eq (href g).symm
  · intro u hu
    have hne : u ≠ t := by
      rintro rfl
      obtain ⟨r', f', hwait, -⟩ := h.contents.asleep u hu
      rw [hpc] at hwait
      cases hwait
    exact .inl ⟨hu, by simp [State.goto, hne]⟩
  · intro u
    rcases eq_or_ne u t with rfl | hne
    · simp [State.goto]
    · have hno : ¬∃ r, s.pc u = .allocFrame r := by
        rw [← h.locked u, hlock]
        simp
      simpa [State.goto, hne, Ne.symm hne] using hno

/-- A frame is allocated for it. -/
theorem alloc {rest : List F} (h : s.Sound) (hlock : s.lock = some t)
    (hpc : s.pc t = .allocFrame r) (hfree : s.pool.freelist = f :: rest) :
    Sound (s.allocated t r f rest) := by
  -- a frame of the free list is not on the page list
  obtain ⟨hlist, -, -⟩ := h.referenced.not_listed hfree
  have hcontent : ∀ g ∈ s.pagelist,
      ((s.allocated t r f rest).frame g).content = (s.frame g).content := by
    intro g hg
    have hne : g ≠ f := fun heq => hlist (heq ▸ hg)
    simp [State.allocated, frame, hne]
  have hself : ((s.allocated t r f rest).frame f).content = .pendingInit := by
    simp [State.allocated, frame]
  have hloads : ∀ u g, ((s.allocated t r f rest).pc u).Loads g ↔
      u = t ∧ f = g ∨ (s.pc u).Loads g := by
    -- sleeping for a frame is not loading it
    intro u g
    rcases eq_or_ne u t with rfl | hne
    · simp [State.allocated, State.goto, hpc, Pc.Loads]
    · simp [State.allocated, State.goto, hne]
  refine ⟨h.referenced.allocated hpc hfree, ⟨fun g hg => ?_, fun u v g hu hv => ?_,
    fun g hg => ?_, fun g hg hfailed => ?_, fun u hu => ?_⟩, ?_⟩
  · simp only [hloads]
    rcases List.mem_append.mp hg with hg | hg
    · have hne : f ≠ g := fun heq => hlist (heq ▸ hg)
      simp only [hcontent g hg, h.contents.pending g hg, hne, and_false, false_or]
    · obtain rfl := List.mem_singleton.mp hg
      exact ⟨fun _ => ⟨t, .inl ⟨rfl, rfl⟩⟩, fun _ => hself⟩
  · -- no other thread is loading the frame
    have hno : ∀ u, ¬(s.pc u).Loads f := fun u hu =>
      hlist (Contents.listed_of_loads h.referenced hu)
    rcases (hloads u g).mp hu with ⟨rfl, rfl⟩ | hu'
    · rcases (hloads v f).mp hv with ⟨rfl, -⟩ | hv'
      · rfl
      · exact absurd hv' (hno v)
    · rcases (hloads v g).mp hv with ⟨rfl, rfl⟩ | hv'
      · exact absurd hu' (hno u)
      · exact h.contents.loader u v g hu' hv'
  · rw [hcontent _ (Contents.listed_of_granted h.referenced hg)]
    exact h.contents.granted g hg
  · have hr := h.referenced.allocated hpc hfree
    have hg' : g ∈ s.pagelist := by
      rcases List.mem_append.mp hg with hg | hg
      · exact hg
      · obtain rfl := List.mem_singleton.mp hg
        rw [hself] at hfailed
        cases hfailed
    -- its references are those that it had, since the frame is another one
    have hold := h.contents.failed g hg' (by rw [← hcontent g hg', hfailed])
    have hsum := references_goto (s := s) (x := none) (t := t) (f := g) (.pagein r f)
    have hrefs : (s.pc t).refs g = 0 := by simp [hpc, Pc.refs, Pc.Loads, Pc.Awaits]
    have heq : (s.allocated t r f rest).references none g =
        (s.goto t (.pagein r f)).references none g := rfl
    omega
  · obtain ⟨r', g, hwait, hc⟩ := h.contents.asleep u hu
    have hne : u ≠ t := by
      rintro rfl
      rw [hpc] at hwait
      cases hwait
    refine ⟨r', g, by simpa [State.allocated, State.goto, hne] using hwait, ?_⟩
    rw [hcontent g (Contents.listed_of_asleep h.referenced hwait)]
    exact hc
  · intro u
    have hno : ¬∃ r', (s.allocated t r f rest).pc u = .allocFrame r' := by
      rintro ⟨r', hr'⟩
      rcases eq_or_ne u t with rfl | hne
      · simp [State.allocated, State.goto] at hr'
      · have hown := (h.locked u).mpr ⟨r', by simpa [State.allocated, State.goto, hne] using hr'⟩
        rw [hlock] at hown
        exact hne (Option.some.inj hown).symm
    exact iff_of_false (by simp [State.allocated]) hno

/-- A thread releases a lock. -/
theorem unlock {g : Grant T F} (h : s.Sound) (hlock : s.lock = none) (hg : g ∈ s.granted) :
    Sound { s.dereferenced g.frame with lock := none, granted := s.granted.erase g } := by
  -- the lock that is released is counted for its frame
  have hlocks : ∀ f, s.locks f =
      (s.granted.erase g).countP (fun g => g.frame = f) + if g.frame = f then 1 else 0 := by
    intro f
    have hperm := (List.perm_cons_erase hg).countP_eq (fun g : Grant T F => decide (g.frame = f))
    unfold locks
    rw [hperm, List.countP_cons]
    simp
  have href : ∀ f, ({ s with granted := s.granted.erase g } : State T F).references
      (some g.frame) f = s.references none f := by
    intro f
    have husers : ({ s with granted := s.granted.erase g } : State T F).users f = s.users f := rfl
    unfold references
    rw [husers, hlocks f]
    simp [locks, Nat.add_assoc]
  have hr : Referenced (some g.frame) { s with granted := s.granted.erase g } :=
    h.referenced.transfer rfl rfl rfl href
  have hd := hr.dereferenced
  have hcontent : ∀ f, ((s.dereferenced g.frame).frame f).content = (s.frame f).content := by
    intro f
    rcases eq_or_ne f g.frame with rfl | hne
    · simp [State.dereferenced, setFrame, frame]
    · simp [State.dereferenced, setFrame, frame, hne]
  refine ⟨hd.transfer rfl rfl rfl fun _ => rfl, h.contents.transfer h.referenced
    (fun f _ => hcontent f) (fun _ => id) (fun _ _ => Iff.rfl)
    (fun k hk => .inl (List.mem_of_mem_erase hk)) ?_ (fun u hu => .inl ⟨hu, rfl⟩),
    h.locked_of_none hlock rfl fun _ _ => id⟩
  intro f hf hfailed
  have hfailed : ((s.dereferenced g.frame).frame f).content = .failedInit := hfailed
  rw [hcontent f] at hfailed
  -- a frame that was locked has been loaded
  have hne : f ≠ g.frame := by
    rintro rfl
    have hvalid := h.contents.granted g hg
    rw [hfailed] at hvalid
    rcases hvalid with hvalid | hvalid <;> cases hvalid
  have hpos := h.contents.failed f hf hfailed
  rw [← href f, references_some_of_ne hne] at hpos
  exact hpos

/-- A call moves a thread to the lock, and the return of `read_page` behind it. -/
theorem goto {p : Pc F} (h : s.Sound) (hp : ∀ f, p.Loads f ↔ (s.pc t).Loads f)
    (hwait : ∀ f, ¬(s.pc t).Awaits f ∧ ¬p.Awaits f)
    (halloc : ∀ r, s.pc t ≠ .allocFrame r ∧ p ≠ .allocFrame r) : Sound (s.goto t p) := by
  have hrefs : ∀ g, (s.pc t).refs g = p.refs g := by
    intro g
    simp [Pc.refs, hp g, (hwait g).1, (hwait g).2]
  have href : ∀ g, (s.goto t p).references none g = s.references none g := by
    intro g
    have := references_goto (s := s) (x := none) (t := t) (f := g) p
    have := hrefs g
    omega
  refine ⟨h.referenced.transfer rfl rfl rfl href, h.contents.transfer h.referenced
    (fun _ _ => rfl) (fun _ => id) (Contents.loads_goto hp) (fun g hg => .inl hg)
    (fun g hg hfailed => ?_) (fun u hu => .inl ⟨hu, ?_⟩), fun u => ?_⟩
  · rw [href]
    exact h.contents.failed g hg hfailed
  · obtain ⟨r', f', hw, -⟩ := h.contents.asleep u hu
    have hne : u ≠ t := by
      rintro rfl
      exact (hwait f').1 (by rw [hw]; rfl)
    simp [State.goto, hne]
  · rcases eq_or_ne u t with rfl | hne
    · have hown := h.locked u
      simp only [(halloc _).1, exists_false, iff_false] at hown
      simpa [State.goto, (halloc _).2] using hown
    · simpa [State.goto, hne] using h.locked u

/-- Every step keeps the invariant. -/
theorem transition (h : s.Sound) (ht : s.Transition e s') : s'.Sound := by
  cases ht with
  | call hpc => exact h.goto (by simp [hpc, Pc.Loads]) (by simp [hpc, Pc.Awaits]) (by simp [hpc])
  | miss hlock hpc _ => exact h.miss hlock hpc
  | wait hlock hs₁ hc => exact h.wait hlock hs₁ hc
  | failed hlock hs₁ hc _ =>
    obtain ⟨hr, hcont⟩ := h.comes hs₁
    exact h.returns hlock (by cases hs₁ <;> rfl) hr hcont
  | granted hlock hs₁ hc =>
    obtain ⟨hr, hcont⟩ := h.comes hs₁
    exact h.grants hlock (by cases hs₁ <;> rfl) hr hcont hc
  | alloc hlock hpc hfree => exact h.alloc hlock hpc hfree
  | @readPage t r f rc hpc =>
    have hgoto : (s.goto t (.pagedIn r f rc)).Sound :=
      h.goto (by simp [hpc, Pc.Loads]) (by simp [hpc, Pc.Awaits]) (by simp [hpc])
    exact hgoto.others rfl rfl rfl rfl rfl (fun _ _ => rfl) hgoto.referenced.nodup
  | loaded hlock hpc =>
    obtain ⟨hr, hcont⟩ := h.initialised hpc (show PageContent.clean ≠ .pendingInit by decide)
    exact h.grants hlock rfl hr hcont (.inl (by simp [State.initialised, setFrame, frame]))
  | loadFailed hlock hpc hrc hpos =>
    obtain ⟨hr, hcont⟩ := h.initialised hpc (show PageContent.failedInit ≠ .pendingInit by decide)
    exact h.returns hlock rfl hr hcont
  | unlock hlock hg _ => exact h.unlock hlock hg
  | @otherAlloc st rc f rest hfree =>
    obtain ⟨hlist, -, -⟩ := h.referenced.not_listed hfree
    refine h.others rfl rfl rfl rfl rfl (fun g hg => ?_) ?_
    · have hne : g ≠ f := fun heq => hlist (heq ▸ hg)
      simp [frame, hne]
    · have hnodup := h.referenced.nodup
      rw [hfree] at hnodup
      have hperm : (s.pagelist ++ rest ++ f :: s.others).Perm
          (s.pagelist ++ f :: rest ++ s.others) := by
        simp only [List.append_assoc, List.cons_append]
        exact List.perm_middle.append_left _
      exact hperm.nodup_iff.mpr hnodup
  | @otherStore f rc c hf =>
    refine h.others rfl rfl rfl rfl rfl (fun g hg => ?_) h.referenced.nodup
    have hne : g ≠ f := fun heq => (h.referenced.not_free hg).2 (heq ▸ hf)
    simp [setFrame, frame, hne]
  | @otherFree f hf =>
    refine h.others rfl rfl rfl rfl rfl (fun g hg => ?_) ?_
    · have hne : g ≠ f := fun heq => (h.referenced.not_free hg).2 (heq ▸ hf)
      simp [FramePool.freed, frame, hne]
    · have hperm : (s.pagelist ++ (s.pool.freelist ++ [f]) ++ s.others.erase f).Perm
          (s.pagelist ++ s.pool.freelist ++ s.others) := by
        have := (List.perm_cons_erase hf).symm
        simp only [List.append_assoc, List.singleton_append]
        exact (this.append_left _).append_left _
      exact hperm.nodup_iff.mpr h.referenced.nodup

end Sound

end State

end GeekOS.Vm
