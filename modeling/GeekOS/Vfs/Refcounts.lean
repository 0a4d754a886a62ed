import Mathlib.Algebra.BigOperators.Ring.Finset
import Mathlib.Tactic.Ring
import GeekOS.Library.ParentTree
import GeekOS.Vfs.Mutex

/-!
# Reference counts

The reference count of an inode counts the references to it and to its descendants, and the
searches that stand there. `vfs_lookup_inode` takes a reference to the start directory by walking
up from it, and then one to each child that it goes on to; a search that fails and
`vfs_release_ref` walk up from where they are.

* `Pc.position`, `Pc.ahead`, `share`: what a thread adds to the count of an inode at each point,
  also in the middle of a walk;
* `Counted`: the invariant; `Counted.transition`: a step of a lookup or of a release keeps it;
* `refcounts_of_run`: in every run of them, from any tree of inodes, the counts are right whenever
  `s_fs_mutex` is free, and the assertions in `vfs_adjust_refcounts` hold.
-/

namespace GeekOS.Vfs

open Result TransitionSystem ParentTree

/-- The inode at which the search of a thread stands, or whose reference the thread hands over to
its caller or gives back. -/
def Pc.position : Pc → Option InodeId
  | lookupLoop _ i _ | lookupUnlock _ (.ok i) | releaseRef _ (some i) | releaseCheck _ i => some i
  | lockDir x | condWait x | search x _ | driverLookup x | lookupRelock x _ | unlockDir x _ =>
      some x.dir
  | adjustRefcounts (.lookupStart l) _ _ => some l.startDir
  | adjustRefcounts (.lookupFailed _ _) i _ | adjustRefcounts (.release _ _) i _ => i
  | _ => none

/-- What `vfs_adjust_refcounts` still has to increment on its way up from the start directory. -/
def Pc.ahead : Pc → Option InodeId
  | adjustRefcounts (.lookupStart _) i _ => i
  | _ => none

/-- The point is one of a lookup or of a release that was called from outside, and the inodes at
hand are where they should be in the tree. -/
def Pc.Placed (parent : InodeId → Option InodeId) : Pc → Prop
  | idle => True
  | lookupInode l | lookupLock l | lookupLoop l _ _ | lookupUnlock l _ => l.caller = .direct
  | lockDir x | condWait x | driverLookup x => x.lookup.caller = .direct
  | search x child => x.lookup.caller = .direct ∧ ∀ i ∈ child, parent i = some x.dir
  | lookupRelock x child | unlockDir x child =>
      x.lookup.caller = .direct ∧ ∀ i, child = .ok i → parent i = some x.dir
  | adjustRefcounts (.lookupStart l) i delta =>
      l.caller = .direct ∧ delta = 1 ∧ ∀ j ∈ i, AtOrAbove parent j l.startDir
  | adjustRefcounts (.lookupFailed l _) _ delta => l.caller = .direct ∧ delta = -1
  | adjustRefcounts (.release c _) _ delta => c = .direct ∧ delta = -1
  | releaseRef c _ | releaseCheck c _ | releaseUnlock c _ => c = .direct
  | _ => False

/-- No such point is the label `done` of `vfs_get_root_dir`. -/
theorem Pc.Placed.locksAgain {parent : InodeId → Option InodeId} {p : Pc} (h : p.Placed parent) :
    p.locksAgain = false := by
  cases p with
  | getRootDirDone => exact h.elim
  | _ => rfl

/-- What the driver's `lookup` finds has the directory as its parent. -/
def Pc.FindsChild (parent : InodeId → Option InodeId) (rc : ℤ) (inode : Option InodeId) : Pc → Prop
  | driverLookup x => rc = 0 → ∀ i ∈ inode, parent i = some x.dir
  | _ => True

instance (parent : InodeId → Option InodeId) (rc : ℤ) (inode : Option InodeId) (p : Pc) :
    Decidable (p.FindsChild parent rc inode) := by
  induction p using Pc.casesOn <;> unfold Pc.FindsChild <;> infer_instance

section Share

variable {parent : InodeId → Option InodeId} {i j : InodeId}

open Classical in
/-- 1 for the inodes at or above `o`. -/
noncomputable def above (parent : InodeId → Option InodeId) (i : InodeId) (o : Option InodeId) : ℕ :=
  if ∃ j ∈ o, AtOrAbove parent i j then 1 else 0

/-- What a thread adds to the count of an inode. -/
noncomputable def share (parent : InodeId → Option InodeId) (i : InodeId) (p : Pc) : ℕ :=
  above parent i p.position - above parent i p.ahead

@[simp]
theorem above_none : above parent i none = 0 := by
  simp [above]

/-- One inode more on the way up. -/
theorem above_some (h : IsForest parent) :
    above parent i (some j) = (if i = j then 1 else 0) + above parent i (parent j) := by
  unfold above
  by_cases hij : i = j
  · subst hij
    have hself : ∃ k ∈ some i, AtOrAbove parent i k := ⟨i, rfl, .refl i⟩
    -- there is no way back: the inode is not above its own parent
    have hnot : ¬∃ k ∈ parent i, AtOrAbove parent i k := by
      rintro ⟨k, hk, hik⟩
      exact h.not_atOrAbove_parent hk hik
    rw [if_pos hself, if_pos rfl, if_neg hnot]
  · rw [if_neg hij, Nat.zero_add]
    congr 1
    simp [atOrAbove_iff (i := i) (j := j), hij]

/-- Who is above a node that is above the position is above the position. -/
theorem above_le {k : InodeId} {o : Option InodeId} (h : ∀ j ∈ o, AtOrAbove parent j k) :
    above parent i o ≤ above parent i (some k) := by
  unfold above
  split
  next hex =>
    obtain ⟨j, hj, hij⟩ := hex
    rw [if_pos ⟨k, rfl, hij.trans (h j hj)⟩]
  · exact Nat.zero_le _

/-- Points that stand at the same inode with nothing ahead. -/
theorem share_of_ahead {p : Pc} (hahead : p.ahead = none) :
    share parent i p = above parent i p.position := by
  rw [share, hahead, above_none, Nat.sub_zero]

open Classical in
/-- The references at the inode or below it. -/
noncomputable def below (parent : InodeId → Option InodeId) (i : InodeId) (live : List InodeId) : ℕ :=
  live.countP fun j => AtOrAbove parent i j

theorem above_le_one {o : Option InodeId} : above parent i o ≤ 1 := by
  unfold above
  split <;> omega

theorem below_cons (live : List InodeId) :
    below parent i (j :: live) = below parent i live + above parent i (some j) := by
  rw [below, List.countP_cons, below, above]
  by_cases h : AtOrAbove parent i j <;> simp [h]

theorem below_erase {live : List InodeId} (hj : j ∈ live) :
    below parent i live = below parent i (live.erase j) + above parent i (some j) := by
  rw [← below_cons, below, below, (List.perm_cons_erase hj).countP_eq]

end Share

namespace State

variable {T : Type} [DecidableEq T]

/-- The child lists lead from a directory to inodes whose parent it is. -/
structure Cached (s : State T) : Prop where
  first : ∀ d i, (s.childList d).first = some i → s.parent i = some d
  last : ∀ d i, (s.childList d).last = some i → s.parent i = some d
  next : ∀ i j, (s.link i).next = some j → s.parent j = s.parent i

/-- The step is one of a lookup or of a release: a reference that is released is live, and an inode
that the driver finds has the directory as its parent. -/
def LookupOrRelease (s : State T) : Event T → Prop
  | .lookupInode .. | .resume _ | .registerFsDriver .. => True
  | .releaseRef _ inode => ∀ i ∈ inode, i ∈ s.live
  | .driverLookup t rc inode => (s.pc t).FindsChild s.parent rc inode
  | .mountRoot .. | .mount .. | .getRootDir _ | .doMount .. => False

instance (s : State T) (e : Event T) : Decidable (s.LookupOrRelease e) := by
  induction e using Event.casesOn <;> unfold LookupOrRelease <;> infer_instance

/-- The reference counts count the references and the searches, over what they were without
them. -/
structure Counted [Fintype T] (parent : InodeId → Option InodeId) (base : InodeId → ℤ)
    (s : State T) : Prop where
  tree : s.parent = parent
  count : ∀ i, s.refcount i =
    base i + below parent i s.live + (∑ t, share parent i (s.pc t) : ℕ)
  placed : ∀ t, (s.pc t).Placed parent
  cached : s.Cached

variable [Fintype T] {parent : InodeId → Option InodeId} {base : InodeId → ℤ} {s s' : State T}
  {e : Event T} {t : T} {p q : Pc}

/-- One thread has moved, and the counts have changed with its share and with the live
references. -/
theorem Counted.of_move (h : Counted parent base s) (hpc : s.pc t = p)
    (hpc' : s'.pc = Function.update s.pc t q) (htree : s'.parent = s.parent)
    (hplaced : q.Placed parent) (hcached : s'.Cached)
    (hcount : ∀ i, s'.refcount i + below parent i s.live + share parent i p =
      s.refcount i + below parent i s'.live + share parent i q) : Counted parent base s' := by
  subst hpc
  refine ⟨htree.trans h.tree, fun i => ?_, fun u => ?_, hcached⟩
  · have hsum := Threads.sum_update (share parent i) s.pc t q
    have hold := h.count i
    have hnew := hcount i
    rw [hpc']
    omega
  · rw [hpc']
    rcases eq_or_ne u t with rfl | hne
    · simpa using hplaced
    · simpa [hne] using h.placed u

/-- The same when no count and no live reference has changed. -/
theorem Counted.of_share (h : Counted parent base s) (hpc : s.pc t = p)
    (hpc' : s'.pc = Function.update s.pc t q) (htree : s'.parent = s.parent)
    (hplaced : q.Placed parent) (hcached : s'.Cached) (hrefcount : s'.refcount = s.refcount)
    (hlive : s'.live = s.live) (hshare : ∀ i, share parent i q = share parent i p) :
    Counted parent base s' := by
  refine h.of_move hpc hpc' htree hplaced hcached fun i => ?_
  rw [hrefcount, hlive, hshare i]

omit [DecidableEq T] [Fintype T] in
/-- Appending what the driver has found keeps the child lists in order. -/
theorem Cached.append (h : s.Cached) {d i : InodeId} (hi : s.parent i = some d)
    (hparent : s'.parent = s.parent)
    (hchildren : s'.childList = Function.update s.childList d
      (LinkedList.append (s.childList d) s.link i).1)
    (hlink : s'.link = (LinkedList.append (s.childList d) s.link i).2) : s'.Cached := by
  refine ⟨fun d' j hj => ?_, fun d' j hj => ?_, fun j k hk => ?_⟩
  · rw [hparent]
    rw [hchildren] at hj
    rcases eq_or_ne d' d with rfl | hne
    · rw [Function.update_self] at hj
      -- only an empty list gets a new first child
      rcases LinkedList.append_first hj with hj | rfl
      · exact h.first _ _ hj
      · exact hi
    · rw [Function.update_of_ne hne] at hj
      exact h.first _ _ hj
  · rw [hparent]
    rw [hchildren] at hj
    rcases eq_or_ne d' d with rfl | hne
    · rw [Function.update_self, LinkedList.append_last] at hj
      rw [← Option.some.inj hj, hi]
    · rw [Function.update_of_ne hne] at hj
      exact h.last _ _ hj
  · rw [hparent]
    rw [hlink] at hk
    -- only the link of the last child is new
    rcases LinkedList.append_next_eq_some hk with hk | ⟨hlast, rfl⟩
    · exact h.next _ _ hk
    · rw [hi, h.last _ _ hlast]

/-- A round of `vfs_adjust_refcounts`, on the way up from the start directory or on the way up
behind a search or a release, changes one count and the share of the thread with it. -/
theorem Counted.adjust (h : Counted parent base s) (hf : IsForest parent) {c : AdjustCaller}
    {i : InodeId} {delta : ℤ} (hpc : s.pc t = .adjustRefcounts c (some i) delta) :
    Counted parent base ((s.setRefcount i (s.refcount i + delta)).goto t
      (.adjustRefcounts c (s.parent i) delta)) := by
  obtain rfl := h.tree
  have hplaced := h.placed t
  rw [hpc] at hplaced
  have hcached : Cached ((s.setRefcount i (s.refcount i + delta)).goto t
      (.adjustRefcounts c (s.parent i) delta)) :=
    ⟨h.cached.first, h.cached.last, h.cached.next⟩
  -- the count that changes, and what is above the inode but not above its parent
  have hround : ∀ k, Function.update s.refcount i (s.refcount i + delta) k +
      above s.parent k (s.parent i) * delta =
        s.refcount k + above s.parent k (some i) * delta := by
    intro k
    rw [above_some hf]
    rcases eq_or_ne k i with rfl | hne
    · rw [Function.update_self, if_pos rfl]
      push_cast
      ring
    · rw [Function.update_of_ne hne, if_neg hne, Nat.zero_add]
  cases c with
  | lookupStart l =>
    obtain ⟨hc, rfl, habove⟩ := hplaced
    have hi : AtOrAbove s.parent i l.startDir := habove i rfl
    -- the walk goes up from the start directory, so what lies ahead of it stays at or above that
    have habove' : ∀ j ∈ s.parent i, AtOrAbove s.parent j l.startDir := fun j hj =>
      (AtOrAbove.of_parent hj (.refl j)).trans hi
    refine h.of_move hpc rfl rfl ⟨hc, rfl, habove'⟩ hcached fun k => ?_
    have hk := hround k
    have hle : above s.parent k (some i) ≤ above s.parent k (some l.startDir) :=
      above_le fun j hj => Option.some.inj hj ▸ hi
    have hle' : above s.parent k (s.parent i) ≤ above s.parent k (some l.startDir) :=
      above_le habove'
    simp only [State.goto, setRefcount, share, Pc.position, Pc.ahead]
    omega
  | lookupFailed l rc =>
    obtain ⟨hc, rfl⟩ := hplaced
    refine h.of_move hpc rfl rfl ⟨hc, rfl⟩ hcached fun k => ?_
    have hk := hround k
    simp only [State.goto, setRefcount, share, Pc.position, Pc.ahead, above_none]
    omega
  | release c' j =>
    obtain ⟨hc, rfl⟩ := hplaced
    refine h.of_move hpc rfl rfl ⟨hc, rfl⟩ hcached fun k => ?_
    have hk := hround k
    simp only [State.goto, setRefcount, share, Pc.position, Pc.ahead, above_none]
    omega
  -- no mount is a lookup or a release
  | mounted m => exact hplaced.elim

/-- Every step of a lookup or of a release keeps the counts. -/
theorem Counted.transition (h : Counted parent base s) (hf : IsForest parent)
    (hC : s.LookupOrRelease e) (ht : s.Transition e s') : Counted parent base s' := by
  -- no step but that of a driver that has found something writes the child lists
  have hcached : ∀ {s₁ : State T}, s₁.parent = s.parent → s₁.childList = s.childList →
      s₁.link = s.link → s₁.Cached := by
    intro s₁ hp hc hl
    exact ⟨by rw [hp, hc]; exact h.cached.first, by rw [hp, hc]; exact h.cached.last,
      by rw [hp, hl]; exact h.cached.next⟩
  have hplace : ∀ {u : T} {p : Pc}, s.pc u = p → p.Placed parent := by
    intro u p hpc
    rw [← hpc]
    exact h.placed u
  cases ht with
  | register hpc => exact ⟨h.tree, h.count, h.placed, hcached rfl rfl rfl⟩
  | call hpc hentry =>
    cases hentry with
    | lookupInode u startDir path =>
      exact h.of_share hpc rfl rfl rfl (hcached rfl rfl rfl) rfl rfl fun _ => rfl
    | _ => exact hC.elim
  | @releaseCall t inode hpc =>
    cases inode with
    | none => exact h.of_share hpc rfl rfl rfl (hcached rfl rfl rfl) rfl rfl fun _ => rfl
    | some i =>
      refine h.of_move hpc rfl rfl rfl (hcached rfl rfl rfl) fun k => ?_
      -- the reference that is given back was live until now, and the thread takes it over
      have hlive : below parent k s.live =
          below parent k (s.live.erase i) + above parent k (some i) := below_erase (hC i rfl)
      simp only [State.goto, share, Pc.position, Pc.ahead, above_none]
      omega
  | lock hpc hlock hawake hfree =>
    cases hlock with
    | lookup l =>
      -- the whole way up is ahead, so the search does not count yet
      refine h.of_share hpc rfl rfl ⟨hplace hpc, rfl, fun j hj => ?_⟩ (hcached rfl rfl rfl) rfl rfl
        fun k => ?_
      · rw [← Option.some.inj hj]
        exact .refl _
      · simp [share, Pc.position, Pc.ahead]
    | condWait x | relock x child | release c i =>
      have hp := hplace hpc
      exact h.of_share hpc rfl rfl hp (hcached rfl rfl rfl) rfl rfl fun _ => rfl
    | getRootDir c | mount m | mountRoot name => exact (hplace hpc).elim
  | @pathTooLong t l hpc hlen =>
    -- nothing was incremented, so nothing is given back
    have hcaller : l.caller = .direct := hplace hpc
    simp only [returnLookup, hcaller]
    exact h.of_share hpc rfl rfl trivial (hcached rfl rfl rfl) rfl rfl fun _ => rfl
  | lookupInode hpc | found hpc | nextName hpc | wait hpc =>
    have hp := hplace hpc
    exact h.of_share hpc rfl rfl hp (hcached rfl rfl rfl) rfl rfl fun _ => rfl
  | badName hpc | notDir hpc =>
    have hp := hplace hpc
    exact h.of_share hpc rfl rfl ⟨hp, rfl⟩ (hcached rfl rfl rfl) rfl rfl fun _ => rfl
  | releaseCheck hpc =>
    have hp := hplace hpc
    exact h.of_share hpc rfl rfl ⟨hp, rfl⟩ (hcached rfl rfl rfl) rfl rfl fun _ => rfl
  | @mark t x hpc hbusy =>
    have hp := hplace hpc
    refine h.of_share hpc rfl rfl ⟨hp, fun i hi => ?_⟩ (hcached rfl rfl rfl) rfl rfl fun _ => rfl
    rw [← h.tree]
    exact h.cached.first x.dir i hi
  | miss hpc =>
    have hp := hplace hpc
    exact h.of_share hpc rfl rfl hp.1 (hcached rfl rfl rfl) rfl rfl fun _ => rfl
  | @hit t x i dirName hpc hname heq =>
    obtain ⟨hc, hchild⟩ := hplace hpc
    refine h.of_share hpc rfl rfl ⟨hc, fun j hj => ?_⟩ (hcached rfl rfl rfl) rfl rfl fun _ => rfl
    rw [← Except.ok.inj hj]
    -- the name matches, and the search goes on with the child that it stood at
    exact hchild i rfl
  | @nextChild t x i dirName hpc hname hne =>
    obtain ⟨hc, hchild⟩ := hplace hpc
    refine h.of_share hpc rfl rfl ⟨hc, fun j hj => ?_⟩ (hcached rfl rfl rfl) rfl rfl fun _ => rfl
    rw [← hchild i rfl, ← h.tree]
    exact h.cached.next i j hj
  | @driverFound t x i hpc =>
    have hp := hplace hpc
    -- the driver's child is appended to the list of the directory
    have hi : s.parent i = some x.dir := by
      simp only [LookupOrRelease, hpc] at hC
      exact hC rfl i rfl
    refine h.of_share hpc rfl rfl ⟨hp, fun j hj => ?_⟩ (h.cached.append hi rfl rfl rfl) rfl rfl
      fun _ => rfl
    rw [← Except.ok.inj hj, ← h.tree]
    exact hi
  | driverFailed hpc hrc =>
    have hp := hplace hpc
    exact h.of_share hpc rfl rfl ⟨hp, fun j hj => by cases hj⟩ (hcached rfl rfl rfl) rfl rfl
      fun _ => rfl
  | unlockDirFailed hpc =>
    have hp := hplace hpc
    exact h.of_share hpc rfl rfl ⟨hp.1, rfl⟩ (hcached rfl rfl rfl) rfl rfl fun _ => rfl
  | @unlockDir t x i hpc =>
    -- the search goes on from the directory to a child of it
    obtain ⟨hc, hchild⟩ := hplace hpc
    have hi : parent i = some x.dir := hchild i rfl
    refine h.of_move hpc rfl rfl hc (hcached rfl rfl rfl) fun k => ?_
    have hsome : above parent k (some i) = (if k = i then 1 else 0) + above parent k (parent i) :=
      above_some hf
    rw [hi] at hsome
    simp only [State.goto, setRefcount, share, Pc.position, Pc.ahead, above_none]
    rcases eq_or_ne k i with rfl | hne
    · rw [Function.update_self]
      rw [if_pos rfl] at hsome
      omega
    · rw [Function.update_of_ne hne]
      rw [if_neg hne] at hsome
      omega
  | adjust hpc => exact h.adjust hf hpc
  | @adjusted t c delta hpc =>
    have hp := hplace hpc
    cases c with
    | lookupStart l =>
      refine h.of_share hpc rfl rfl hp.1 (hcached rfl rfl rfl) rfl rfl fun k => ?_
      simp [share, Pc.position, Pc.ahead]
    | lookupFailed l rc =>
      refine h.of_share hpc rfl rfl hp.1 (hcached rfl rfl rfl) rfl rfl fun k => ?_
      simp [share, Pc.position, Pc.ahead]
    | release c i =>
      refine h.of_share hpc rfl rfl hp.1 (hcached rfl rfl rfl) rfl rfl fun k => ?_
      simp [share, Pc.position, Pc.ahead]
    | mounted m => exact hp.elim
  | @lookupUnlock t l inode hpc hheld =>
    have hcaller : l.caller = .direct := hplace hpc
    cases inode with
    | error rc =>
      simp only [returnLookup, hcaller]
      exact h.of_share hpc rfl rfl trivial (hcached rfl rfl rfl) rfl rfl fun _ => rfl
    | ok i =>
      -- the search becomes a live reference
      simp only [returnLookup, hcaller]
      refine h.of_move hpc rfl rfl trivial (hcached rfl rfl rfl) fun k => ?_
      have hlive : below parent k (i :: s.live) =
          below parent k s.live + above parent k (some i) := below_cons s.live
      simp only [State.goto, record, share, Pc.position, Pc.ahead, above_none]
      omega
  | @releaseNull t c hpc =>
    obtain rfl : c = .direct := hplace hpc
    exact h.of_share hpc rfl rfl trivial (hcached rfl rfl rfl) rfl rfl fun _ => rfl
  | @releaseUnlock t c i hpc hheld =>
    obtain rfl : c = .direct := hplace hpc
    exact h.of_share hpc rfl rfl trivial (hcached rfl rfl rfl) rfl rfl fun _ => rfl
  | lockAgain hpc | getRootDir hpc | mountCheck hpc | mountDo hpc | mountStore hpc
  | mountUnlock hpc | mountRootDo hpc | mountRootUnlock hpc => exact (hplace hpc).elim

/-! ## The result -/

/-- A tree of inodes at rest: no thread is in a function of `vfs.c`, no mutex is locked, no
directory is busy, and the counts cover the live references. -/
structure InodeTree (s : State T) : Prop where
  idle : ∀ t, s.pc t = .idle
  fsMutex : s.fsMutex = none
  driverList : s.driverListMutex = none
  busy : ∀ d, s.busy d = false
  forest : IsForest s.parent
  cached : s.Cached
  covered : ∀ i, (below s.parent i s.live : ℤ) ≤ s.refcount i

open Classical in
/-- The number of live references and of searches in progress at the inode or at a descendant of
it. A reference that a call of `vfs_release_ref` is about to give back is one of them. -/
noncomputable def references (s : State T) (i : InodeId) : ℕ :=
  below s.parent i s.live +
    (Finset.univ.filter fun t => ∃ j ∈ (s.pc t).position, AtOrAbove s.parent i j).card

omit [DecidableEq T] [Fintype T] in
theorem InodeTree.locked (h : s.InodeTree) : s.Locked := by
  refine ⟨fun t => ?_, fun d => ?_, fun t u d ht => ?_, h.driverList⟩
  · simp [h.fsMutex, h.idle, Pc.holds]
  · simp [h.busy, h.idle, Pc.marked]
  · rw [h.idle] at ht
    cases ht

omit [DecidableEq T] in
/-- At rest the counts are what they are without the references, and the references. -/
theorem InodeTree.counted (h : s.InodeTree) :
    Counted s.parent (fun i => s.refcount i - below s.parent i s.live) s := by
  refine ⟨rfl, fun i => ?_, fun t => ?_, h.cached⟩
  · have hshare : ∀ t, share s.parent i (s.pc t) = 0 := by
      intro t
      rw [h.idle]
      rfl
    simp [hshare]
  · rw [h.idle]
    trivial

omit [DecidableEq T] in
/-- While the mutex is free, no thread is on its way up the tree. -/
theorem Counted.references_eq (h : Counted parent base s) (hl : s.Locked)
    (hfree : s.fsMutex = none) (i : InodeId) :
    below parent i s.live + ∑ t, share parent i (s.pc t) = s.references i := by
  have hahead : ∀ t, (s.pc t).ahead = none := by
    intro t
    have hholds : ¬(s.pc t).holds = true := by
      rw [← hl.held t, hfree]
      simp
    cases hpc : s.pc t <;> simp_all [Pc.holds, Pc.ahead]
  rw [references, Finset.card_filter, h.tree]
  congr 1
  refine Finset.sum_congr rfl fun t _ => ?_
  rw [share_of_ahead (hahead t), above]

/-- The assertions in `vfs_adjust_refcounts` hold. -/
theorem Counted.exec_ne_adjustRefcounts (h : Counted parent base s) (hbase : ∀ i, 0 ≤ base i) :
    s.exec e ≠ .error .adjustRefcounts := by
  intro hf
  cases fails_of_exec hf with
  | @adjust t c i delta hpc hneg =>
    have hcount := h.count i
    have hb := hbase i
    -- the count is at least the share of the thread that is at the assertion
    have hle : share parent i (s.pc t) ≤ ∑ u, share parent i (s.pc u) :=
      Threads.le_sum (share parent i) s.pc t
    have hplaced := h.placed t
    rw [hpc] at hle hplaced
    have hself : above parent i (some i) = 1 := by
      rw [above, if_pos ⟨i, rfl, .refl i⟩]
    cases c with
    | lookupStart l =>
      obtain ⟨-, rfl, -⟩ := hplaced
      omega
    | lookupFailed l rc | release c' j =>
      -- the reference that is given back is still counted
      rw [share_of_ahead rfl, Pc.position, hself] at hle
      omega
    | mounted m => exact hplaced.elim
  | other hm ha => exact ha rfl

omit [DecidableEq T] in
/-- No more references than live ones and threads that search are counted. -/
theorem Counted.refcount_le (h : Counted parent base s) (i : InodeId) :
    s.refcount i ≤ base i + s.live.length + Fintype.card T := by
  have hlive : below parent i s.live ≤ s.live.length := List.countP_le_length
  have hsum : ∑ t, share parent i (s.pc t) ≤ Fintype.card T := by
    refine (Finset.sum_le_card_nsmul _ _ 1 fun t _ => ?_).trans_eq (by simp)
    exact (Nat.sub_le _ _).trans above_le_one
  rw [h.count i]
  omega

/-- In every run of lookups and releases on a tree of inodes, by any number of threads in any
order: while `s_fs_mutex` is free, each count is what it was at the start, with the references and
the searches of now in place of those of then. When all calls have returned and the references are
those of the start, so are the counts. The counts are integers here; they are those of a C `int` while
the counts without the references, the live references and the threads come to less than 2^31
together. The assertions in `vfs_adjust_refcounts` never fail, neither those on the counts nor the one
that the mutex is held, which no other step fails either. -/
theorem refcounts_of_run {s₀ : State T} {tr : List (State T × Event T)} (hr : Run Step s₀ tr s)
    (h₀ : s₀.InodeTree) (hC : ∀ p ∈ tr, p.1.LookupOrRelease p.2) :
    (s.fsMutex = none →
      ∀ i, s.refcount i = s₀.refcount i - s₀.references i + s.references i) ∧
    ((∀ t, s.pc t = .idle) → s.live.Perm s₀.live → ∀ i, s.refcount i = s₀.refcount i) ∧
    (∀ i, s.refcount i ≤
      s₀.refcount i - s₀.references i + s.live.length + Fintype.card T) ∧
    ∀ e f, s.exec e = .error f → f ≠ .adjustRefcounts ∧ f.ofMutex = false := by
  -- the counts without the references, which no step changes
  let base : InodeId → ℤ := fun i => s₀.refcount i - below s₀.parent i s₀.live
  have hcounted : Counted s₀.parent base s :=
    hr.invariant_of_steps hC h₀.counted fun _ _ _ h hC hs =>
      h.transition h₀.forest hC hs.transition
  have hlocked : s.Locked := hr.invariant h₀.locked fun _ _ _ h hs => h.transition hs.transition
  have hstart : ∀ i, s₀.references i = below s₀.parent i s₀.live := by
    intro i
    simp [references, h₀.idle, Pc.position]
  have hcount : s.fsMutex = none →
      ∀ i, s.refcount i = s₀.refcount i - s₀.references i + s.references i := by
    intro hfree i
    rw [hstart, ← hcounted.references_eq hlocked hfree i, hcounted.count i]
    push_cast
    ring
  refine ⟨hcount, fun hidle hperm i => ?_, fun i => ?_, fun e f hf => ⟨?_, ?_⟩⟩
  · have hfree : s.fsMutex = none := by
      rw [Option.eq_none_iff_forall_ne_some]
      intro t ht
      have hholds := (hlocked.held t).mp ht
      rw [hidle] at hholds
      cases hholds
    have hnow : s.references i = s₀.references i := by
      rw [hstart, references, hcounted.tree, below, hperm.countP_eq, below]
      simp [hidle, Pc.position]
    rw [hcount hfree i, hnow]
    ring
  · rw [hstart]
    exact hcounted.refcount_le i
  · rintro rfl
    refine hcounted.exec_ne_adjustRefcounts (fun i => ?_) hf
    have hcovered := h₀.covered i
    simp only [base]
    omega
  · exact hlocked.exec_error (fun t => (hcounted.placed t).locksAgain) hf

/-- A root directory, and room for the children that its driver finds. -/
def rootTree : State (Fin 1) :=
  { initial with
    parent := fun i => if i = 0 then none else some 0
    name := fun _ => some []
    refcount := Function.update (fun _ => 0) 0 1 }

theorem rootTree_inodeTree : rootTree.InodeTree := by
  refine ⟨fun _ => rfl, rfl, rfl, fun _ => rfl, ?_, ⟨fun _ _ h => ?_, fun _ _ h => ?_, fun _ _ h => ?_⟩,
    fun i => ?_⟩
  · refine isForest_of_depth (fun i => if i = 0 then 0 else 1) fun j p hp => ?_
    by_cases hj : j = 0
    · simp [rootTree, hj] at hp
    · have hp0 : p = 0 := by simpa [rootTree, hj, eq_comm] using hp
      simp [hj, hp0]
  · cases h
  · cases h
  · cases h
  · rcases eq_or_ne i 0 with rfl | hne
    · simp [below, rootTree, initial]
    · simp [below, rootTree, initial, hne]

attribute [local instance] neZero_one in
/-- A lookup that the driver answers with a child of the root directory, and the release of the
reference. -/
def lookupAndRelease : List (Event (Fin 1)) :=
  .lookupInode 0 0 (letters ['a']) :: List.replicate 7 (.resume 0) ++
    .driverLookup 0 0 (some 1) :: List.replicate 4 (.resume 0) ++
    .releaseRef 0 (some 1) :: List.replicate 6 (.resume 0)

theorem refcounts_lookupAndRelease :
    ∃ tr s, Run Step rootTree tr s ∧ s.returned.length = 2 ∧
      ∀ i, s.refcount i = rootTree.refcount i := by
  have hruns : (runs Enabled exec rootTree lookupAndRelease).any fun r =>
      (∀ p ∈ r.1, p.1.LookupOrRelease p.2) ∧ r.2.pc 0 = .idle ∧ r.2.live = [] ∧
        r.2.returned.length = 2 := by
    decide
  obtain ⟨tr, s, hr, hC, hpc, hlive, hreturned⟩ :=
    exists_run (P := fun tr (s : State (Fin 1)) => (∀ p ∈ tr, LookupOrRelease p.1 p.2) ∧
      s.pc 0 = .idle ∧ s.live = [] ∧ s.returned.length = 2) hruns
  refine ⟨tr, s, hr, hreturned, (refcounts_of_run hr rootTree_inodeTree hC).2.1 (fun t => ?_) ?_⟩
  · rw [Subsingleton.elim t 0, hpc]
  · rw [hlive]
    exact List.Perm.refl _

end State

end GeekOS.Vfs
