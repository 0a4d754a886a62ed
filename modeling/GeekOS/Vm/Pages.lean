import GeekOS.Vm.Codes

/-!
# Frames and page numbers

`vm_lock_page` looks for a frame whose field `vm_pgcache_page_num` is the page number, and no
function of the kernel stores a page number there. What a search finds is therefore decided by what
is left in the fields of the frames.

* `PagesRight`: the frame of a call has the contents of its page, and each page has one frame;
* `pagesRight_of_searchStep`: so it is in a run whose searches find what they should.
-/

namespace GeekOS.Vm

open Result Threads TransitionSystem

variable {T F : Type}

/-- A call that has returned 0 or stored a frame has stored one with the contents of its page. -/
def Return.Delivers (r : Return T F) : Prop :=
  r.rc = 0 ∨ r.stored ≠ none → r.stored = some r.frame ∧ r.filled = some r.pageNum

namespace State

/-- Calls deliver the contents of their page, and there is one frame for a page. -/
structure PagesRight (s : State T F) : Prop where
  returned : ∀ r ∈ s.returned, r.Delivers
  /-- Two locks on one page are on one frame. -/
  granted : ∀ g ∈ s.granted, ∀ g' ∈ s.granted, g.pageNum = g'.pageNum → g.frame = g'.frame
  /-- The page list has one frame for a page. -/
  nodup : (s.pagelist.map s.pageOf).Nodup

/-- If the frame could not be loaded, its field `errc` happens not to be 0. -/
def ErrcSet (s : State T F) (f : F) : Prop :=
  (s.frame f).content = .failedInit → (s.frame f).errc ≠ 0

instance (s : State T F) (f : F) : Decidable (s.ErrcSet f) :=
  inferInstanceAs (Decidable (_ → _))

/-- The search of a call finds the frame that was allocated for its page if there is one on the page
list, and no other frame; and where a call comes to a frame that could not be loaded, the field
`errc` of this frame happens not to be 0. -/
def SearchStep (s : State T F) (e : Event T F) : Prop :=
  match e with
  | .resume t =>
      match s.pc t with
      | .lockPage r =>
          match s.lookup r.pageNum with
          | some f => s.pageOf f = r.pageNum ∧ s.ErrcSet f
          | none => ∀ f ∈ s.pagelist, s.pageOf f ≠ r.pageNum
      | .condWait _ f => s.ErrcSet f
      | _ => True
  | _ => True

instance (s : State T F) (e : Event T F) : Decidable (s.SearchStep e) := by
  induction e using Event.casesOn <;> unfold SearchStep
  case resume t =>
    dsimp only
    generalize s.pc t = p
    induction p using Pc.casesOn
    case lockPage r =>
      dsimp only
      generalize s.lookup r.pageNum = found
      induction found using Option.casesOn <;> infer_instance
    all_goals infer_instance
  all_goals infer_instance

section SearchStep

variable {s : State T F} {t : T} {r : Request} {f : F}

theorem SearchStep.hit (h : s.SearchStep (.resume t)) (hpc : s.pc t = .lockPage r)
    (hf : s.lookup r.pageNum = some f) : s.pageOf f = r.pageNum := by
  simp only [SearchStep, hpc, hf] at h
  exact h.1

theorem SearchStep.miss (h : s.SearchStep (.resume t)) (hpc : s.pc t = .lockPage r)
    (hf : s.lookup r.pageNum = none) : ∀ f ∈ s.pagelist, s.pageOf f ≠ r.pageNum := by
  simpa only [SearchStep, hpc, hf] using h

theorem SearchStep.failed (h : s.SearchStep (.resume t)) (hto : s.ComesTo t r f) :
    s.ErrcSet f := by
  rcases hto with ⟨hpc, hf⟩ | hpc
  · simp only [SearchStep, hpc, hf] at h
    exact h.2
  · simpa only [SearchStep, hpc] using h

end SearchStep

/-- Frames are used for the page they were allocated for. -/
structure Matched (s : State T F) : Prop where
  returned : ∀ r ∈ s.returned, r.Delivers
  granted : ∀ g ∈ s.granted, s.pageOf g.frame = g.pageNum
  nodup : (s.pagelist.map s.pageOf).Nodup
  waits : ∀ t r f, s.pc t = .condWait r f → s.pageOf f = r.pageNum
  missing : ∀ t r, s.pc t = .allocFrame r → ∀ f ∈ s.pagelist, s.pageOf f ≠ r.pageNum

namespace Matched

variable {s s' s₀ : State T F} {t : T} {r : Request} {f : F} {e : Event T F}

/-- The state changes in nothing that concerns the pages. -/
theorem transfer (h : Matched s) (hlist : s'.pagelist.Sublist s.pagelist)
    (hpageOf : s'.pageOf = s.pageOf)
    (hreturned : ∀ r ∈ s'.returned, r ∈ s.returned ∨ r.Delivers)
    (hgranted : ∀ g ∈ s'.granted, g ∈ s.granted ∨ s.pageOf g.frame = g.pageNum)
    (hwaits : ∀ t r f, s'.pc t = .condWait r f → s.pc t = .condWait r f ∨ s.pageOf f = r.pageNum)
    (hmissing : ∀ t r, s'.pc t = .allocFrame r → s.pc t = .allocFrame r ∨
      ∀ f ∈ s.pagelist, s.pageOf f ≠ r.pageNum) : Matched s' where
  returned r hr := (hreturned r hr).elim (h.returned r) id
  granted g hg := by
    rw [hpageOf]
    exact (hgranted g hg).elim (h.granted g) id
  nodup := by
    rw [hpageOf]
    exact h.nodup.sublist (hlist.map _)
  waits t r f ht := by
    rw [hpageOf]
    exact (hwaits t r f ht).elim (h.waits t r f) id
  missing t r ht f hf := by
    rw [hpageOf]
    exact (hmissing t r ht).elim (h.missing t r) id f (hlist.subset hf)

/-- Where frames are used for their page, calls and locks are right. -/
theorem pagesRight [DecidableEq F] [Fintype T] (h : Matched s) (hs : s.Sound) : s.PagesRight where
  returned := h.returned
  granted g hg g' hg' heq := by
    have hmem := Contents.listed_of_granted hs.referenced hg
    have hmem' := Contents.listed_of_granted hs.referenced hg'
    -- both frames were allocated for the page of their locks, and a page has one frame
    refine List.inj_on_of_nodup_map h.nodup hmem hmem' ?_
    rw [h.granted g hg, h.granted g' hg', heq]
  nodup := h.nodup

/-- The frame that a call comes to was allocated for its page. -/
theorem pageOf_of_comes [DecidableEq F] {s₁ : State T F} (h : Matched s)
    (hC : s.SearchStep (.resume t)) (hs₁ : s.Comes t r f s₁) : s.pageOf f = r.pageNum := by
  cases hs₁ with
  | hit hpc hf => exact hC.hit hpc hf
  | woken hpc _ => exact h.waits t r f hpc

variable [DecidableEq T]

/-- A thread that moves to a point other than these two. -/
theorem pc_goto {p q : Pc F} (hp : p ≠ q) (u : T) (hu : (s.goto t p).pc u = q) : s.pc u = q := by
  rcases eq_or_ne u t with rfl | hne
  · exact absurd (by simpa [State.goto] using hu) hp
  · simpa [State.goto, hne] using hu

/-- A thread leaves a section without a lock, and not with the code 0. -/
theorem returns {s₁ : State T F} {rc : ℤ} {pageinRc : Option ℤ} {filled : Option PageNum}
    (h : Matched s) (hpc : s₁.pc = s.pc) (hrc : rc ≠ 0)
    (hlist : s₁.pagelist.Sublist s.pagelist)
    (hrecord : s₁.pageOf = s.pageOf ∧ s₁.returned = s.returned ∧ s₁.granted = s.granted) :
    Matched (s₁.returns t r f pageinRc filled rc none) := by
  have hgoto : ∀ {q : Pc F} (u : T), .idle ≠ q → (s₁.goto t .idle).pc u = q → s.pc u = q :=
    fun u hq hu => (congrFun hpc u).symm.trans (pc_goto hq u hu)
  refine h.transfer hlist hrecord.1 (fun k hk => ?_) (fun g hg => .inl ?_)
    (fun u r' f' hu => .inl (hgoto u (by simp) hu)) fun u r' hu => .inl (hgoto u (by simp) hu)
  · rcases List.mem_cons.mp hk with rfl | hk
    · exact .inr fun hnot => by simp [hrc] at hnot
    · exact .inl (hrecord.2.1 ▸ hk)
  · have hg : g ∈ s₁.granted := by simpa [State.returns] using hg
    exact hrecord.2.2 ▸ hg

/-- A thread leaves a section with a lock on a frame that has the contents of its page. -/
theorem grants {s₁ : State T F} {rc : ℤ} {pageinRc : Option ℤ} {filled : Option PageNum}
    (h : Matched s) (hfilled : filled = some r.pageNum) (hpage : s.pageOf f = r.pageNum)
    (hpc : s₁.pc = s.pc)
    (hrecord : s₁.pageOf = s.pageOf ∧ s₁.returned = s.returned ∧ s₁.granted = s.granted ∧
      s₁.pagelist = s.pagelist) :
    Matched (s₁.returns t r f pageinRc filled rc (some f)) := by
  have hgoto : ∀ {q : Pc F} (u : T), .idle ≠ q → (s₁.goto t .idle).pc u = q → s.pc u = q :=
    fun u hq hu => (congrFun hpc u).symm.trans (pc_goto hq u hu)
  refine h.transfer (by exact hrecord.2.2.2 ▸ .refl _) hrecord.1 (fun k hk => ?_) (fun g hg => ?_)
    (fun u r' f' hu => .inl (hgoto u (by simp) hu)) fun u r' hu => .inl (hgoto u (by simp) hu)
  · rcases List.mem_cons.mp hk with rfl | hk
    · exact .inr fun _ => ⟨rfl, hfilled⟩
    · exact .inl (hrecord.2.1 ▸ hk)
  · have hsplit : g = { thread := t, pageNum := r.pageNum, frame := f } ∨ g ∈ s₁.granted := by
      simpa [State.returns] using hg
    rcases hsplit with rfl | hg
    · exact .inr hpage
    · exact .inl (hrecord.2.2.1 ▸ hg)

variable [DecidableEq F] [Fintype T]

/-- Every step whose search finds what it should keeps it so. -/
theorem transition (h : Matched s) (hs : s.Sound) (hr : s.Recorded) (hC : s.SearchStep e)
    (ht : s.Transition e s') : Matched s' := by
  cases ht with
  | call hpc =>
    exact h.transfer (.refl _) rfl (fun _ => .inl) (fun _ => .inl)
      (fun u r f hu => .inl (pc_goto (by simp) u hu)) fun u r hu => .inl (pc_goto (by simp) u hu)
  | @miss t r hlock hpc hf =>
    refine h.transfer (.refl _) rfl (fun _ => .inl) (fun _ => .inl)
      (fun u r f hu => .inl (pc_goto (by simp) u hu)) fun u r' hu => ?_
    rcases eq_or_ne u t with rfl | hne
    · obtain rfl : r = r' := by simpa [State.goto] using hu
      -- the search has found nothing, and rightly so
      exact .inr (hC.miss hpc hf)
    · exact .inl (by simpa [State.goto, hne] using hu)
  | @wait t r f s₁ hlock hs₁ hc =>
    have hpage := h.pageOf_of_comes hC hs₁
    obtain ⟨pool, rfl, -, -⟩ := hs₁.eq
    refine h.transfer (.refl _) rfl (fun _ => .inl) (fun _ => .inl) (fun u r' f' hu => ?_)
      fun u r hu => .inl (pc_goto (by simp) u hu)
    rcases eq_or_ne u t with rfl | hne
    · obtain ⟨rfl, rfl⟩ : r = r' ∧ f = f' := by simpa [State.goto] using hu
      exact .inr hpage
    · exact .inl (by simpa [State.goto, hne] using hu)
  | @failed t r f s₁ hlock hs₁ hc hpos =>
    have hto := hs₁.comesTo
    obtain ⟨pool, rfl, -, hsame⟩ := hs₁.eq
    -- `errc` is not 0, so this call does not claim success
    have herrc := hC.failed hto ((hsame f).1.symm.trans hc)
    refine h.returns (released_pc.trans rfl) ?_ released_sublist ?_
    · rw [frame, (hsame f).2]
      exact herrc
    · obtain ⟨_, _, heq⟩ := released_eq (s := ({ s with pool } : State T F)) (f := f)
      rw [heq]
      exact ⟨rfl, rfl, rfl⟩
  | @granted t r f s₁ hlock hs₁ hc =>
    have hpage := h.pageOf_of_comes hC hs₁
    have hf := hs.listed_of_comes hs₁
    obtain ⟨pool, rfl, -, hsame⟩ := hs₁.eq
    -- the frame is valid, so `read_page` has filled it with the page it was allocated for
    have hfilled := hr.filled f hf (hr.valid f hf ((hsame f).1 ▸ hc))
    rw [hpage] at hfilled
    exact h.grants hfilled hpage rfl ⟨rfl, rfl, rfl, rfl⟩
  | @alloc t r f rest hlock hpc hfree =>
    obtain ⟨hlist, -, -⟩ := hs.referenced.not_listed hfree
    -- the page of the new frame is recorded, and those of the frames on the list stay
    have hold : ∀ g ∈ s.pagelist, (s.allocated t r f rest).pageOf g = s.pageOf g := by
      intro g hg
      have hne : g ≠ f := fun heq => hlist (heq ▸ hg)
      exact Function.update_of_ne hne _ _
    refine ⟨h.returned, fun g hg => ?_, ?_, fun u r' g hu => ?_, fun u r' hu => ?_⟩
    · rw [hold _ (Contents.listed_of_granted hs.referenced hg)]
      exact h.granted g hg
    · have hmap : (s.allocated t r f rest).pagelist.map (s.allocated t r f rest).pageOf =
          s.pagelist.map s.pageOf ++ [r.pageNum] := by
        have hlast : (s.allocated t r f rest).pageOf f = r.pageNum := Function.update_self ..
        have hpage : (s.allocated t r f rest).pagelist = s.pagelist ++ [f] := rfl
        rw [hpage, List.map_append, List.map_congr_left hold, List.map_singleton, hlast]
      rw [hmap, List.nodup_append]
      refine ⟨h.nodup, List.nodup_singleton _, ?_⟩
      -- the search has found no frame for the page, and the lock has been kept since
      rintro n hn m hm rfl
      obtain ⟨g, hg, rfl⟩ := List.mem_map.mp hn
      exact h.missing t r hpc g hg (List.mem_singleton.mp hm)
    · have hwait := pc_goto (p := .pagein r f) (by simp) u hu
      rw [hold g (Contents.listed_of_asleep hs.referenced hwait)]
      exact h.waits u r' g hwait
    · have hu : (s.goto t (.pagein r f)).pc u = .allocFrame r' := hu
      -- a thread between the search and the allocation holds the lock of the cache
      have hown := (hs.locked u).mpr ⟨r', pc_goto (by simp) u hu⟩
      rw [hlock] at hown
      obtain rfl := Option.some.inj hown
      simp [State.goto] at hu
  | readPage hpc =>
    exact h.transfer (.refl _) rfl (fun _ => .inl) (fun _ => .inl)
      (fun u r f hu => .inl (pc_goto (by simp) u hu)) fun u r hu => .inl (pc_goto (by simp) u hu)
  | @loaded t r f hlock hpc =>
    obtain ⟨hpage, hrc⟩ := hr.pagedIn t r f 0 hpc
    have hf := Contents.listed_of_loads hs.referenced (t := t) (f := f) (by rw [hpc]; rfl)
    have hfilled := hr.filled f hf hrc
    rw [hpage] at hfilled
    exact h.grants hfilled hpage rfl ⟨rfl, rfl, rfl, rfl⟩
  | @loadFailed t r f rc hlock hpc hrc hpos =>
    refine h.returns (released_pc.trans rfl) hrc released_sublist ?_
    obtain ⟨_, _, heq⟩ := released_eq (s := s.initialised f .failedInit) (f := f)
    rw [heq]
    exact ⟨rfl, rfl, rfl⟩
  | @unlock t g hlock hg hpos =>
    exact h.transfer (.refl _) rfl (fun _ => .inl) (fun _ hk => .inl (List.mem_of_mem_erase hk))
      (fun _ _ _ => .inl) fun _ _ => .inl
  | otherAlloc | otherStore | otherFree =>
    exact h.transfer (.refl _) rfl (fun _ => .inl) (fun _ => .inl) (fun _ _ _ => .inl)
      fun _ _ => .inl

end Matched

variable {s s₀ : State T F}

theorem Initial.matched (h : s₀.Initial) : s₀.Matched := by
  refine ⟨?_, ?_, ?_, fun t r f ht => ?_, fun t r ht => ?_⟩
  · simp [h.returned]
  · simp [h.granted]
  · simp [h.pagelist]
  · simp [h.pc] at ht
  · simp [h.pc] at ht

variable [DecidableEq T] [DecidableEq F] [Fintype T]

/-- In a run whose searches find what they should, calls and locks are right. -/
theorem pagesRight_of_searchStep {tr : List (State T F × Event T F)} (h₀ : s₀.Initial)
    (h : Run Step s₀ tr s) (hC : ∀ p ∈ tr, p.1.SearchStep p.2) :
    ∀ s' ∈ visited tr s, s'.PagesRight := by
  intro s' hs'
  have hI : s'.Sound ∧ s'.Recorded ∧ s'.Matched := by
    refine h.invariant_of_visited (I := fun s => s.Sound ∧ s.Recorded ∧ s.Matched)
      (C := SearchStep) hC ⟨h₀.sound, h₀.recorded, h₀.matched⟩ ?_ hs'
    rintro s e s' ⟨hs, hr, hm⟩ hstepC hstep
    have ht := hs.transition_of_step hstep
    exact ⟨hs.transition ht, hr.transition hs ht, hm.transition hs hr hstepC ht⟩
  exact hI.2.2.pagesRight hI.1

/-! ## Runs in which searches go wrong -/

attribute [local instance] neZero_two in
/-- Two threads lock page 1, one after the other, and then the first one locks page 0. -/
def strayPages : List (Event (Fin 2) (Fin 2)) :=
  [.call 0 { pageNum := 1, rc := 0 }, .resume 0, .resume 0, .readPage 0 0, .resume 0,
    .call 1 { pageNum := 1, rc := 0 }, .resume 1, .resume 1, .readPage 1 0, .resume 1,
    .call 0 { pageNum := 0, rc := 0 }, .resume 0]

attribute [local instance] neZero_two in
/-- What the last call returns: the frame of page 1. -/
def strayReturn : Return (Fin 2) (Fin 2) where
  thread := 0
  pageNum := 0
  frame := 0
  pageinRc := some 0
  filled := some 1
  rc := 0
  stored := some 0

/-- A page is loaded twice, and a call succeeds with the contents of another page. -/
theorem not_pagesRight_strayPages :
    ∃ s, Reachable Step (fresh [0, 1]) s ∧ s.pagelist.map s.pageOf = [1, 1] ∧
      strayReturn ∈ s.returned ∧ ¬s.PagesRight := by
  have hrun : (runs Enabled exec (fresh [0, 1]) strayPages).isSome := by decide
  have hmem : strayReturn ∈ (after Enabled exec (fresh [0, 1]) strayPages).returned := by decide
  refine ⟨_, reachable_after hrun, by decide, hmem, fun h => ?_⟩
  have hdelivers := h.returned _ hmem (.inl rfl)
  exact absurd hdelivers.2 (by decide)

/-- A thread loads page 0 and finds it again. -/
theorem pagesRight_of_searchStep_loadedPage :
    ∃ tr s, Run Step (fresh [0] : State (Fin 1) (Fin 1)) tr s ∧ tr ≠ [] ∧
      ∀ s' ∈ visited tr s, s'.PagesRight := by
  have hend : (runs Enabled exec (fresh [0] : State (Fin 1) (Fin 1)) loadedPage).any
      fun r => r.1 ≠ [] ∧ ∀ p ∈ r.1, p.1.SearchStep p.2 := by decide
  obtain ⟨tr, s, hr, hne, hC⟩ := exists_run (P := fun tr _ => tr ≠ [] ∧ ∀ p ∈ tr,
    SearchStep p.1 p.2) hend
  exact ⟨tr, s, hr, hne, pagesRight_of_searchStep (fresh_initial (by decide)) hr hC⟩

end State

end GeekOS.Vm
